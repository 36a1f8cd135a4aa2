/-
Reading through a data store by markers (`dsm_read`, `dsm_locate` in dsm.c).

A marker is the location of a block; `none` is the magic marker of `dsm_marker_reset`.

* `getNextBlock_spec` — the next block in use;
* `dsmRead_spec`, `locateRight_iff` — reading on from a marker, and finding one;
* `step_keeps` — what a step keeps of the cache, of the markers and of a scan;
* `markers_iff` — scans are complete, and which markers `dsm_locate` is right about.
-/
import FreeDce.Rpcd.DsmRun

namespace Dsm

open Runs Tiling

/-! ### Blocks in order -/

/-- The inner loop of `get_next_block`, through the chunk with number `c`: the location it
comes to, and a block in use. -/
def nextInChunk (s : Store) (c : ℕ) (map : FileMap) : ℕ → ℕ → ℕ × Option Ptr
  | 0, loc => (loc, none)
  | n + 1, loc =>
    if loc < map.loc + map.size then
      let next : Ptr := ⟨c, sub32 loc map.loc⟩
      if (s.mem next).isfree then nextInChunk s c map n (u32 (loc + (preheader + (s.mem next).size)))
      else (loc, some next)
    else (loc, none)

/-- Its loop over the chunks, from the one with number `c` on. -/
def nextInMaps (s : Store) : ℕ → List FileMap → ℕ → Option Ptr
  | _, [], _ => none
  | c, map :: maps, loc =>
    match nextInChunk s c map map.size loc with
    | (_, some p) => some p
    | (loc, none) => nextInMaps s (c + 1) maps loc

/-- `get_next_block`. -/
def getNextBlock (s : Store) (this : Ptr) : Option Ptr :=
  nextInMaps s 0 s.map (u32 ((s.mem this).loc + preheader + (s.mem this).size))

/-- `get_earlier_block`: the first block. -/
def getEarlierBlock (s : Store) : Option Ptr :=
  match s.map with
  | [] => none
  | _ :: _ => some ⟨0, 0⟩

/-- On to the next block while the location is one `before` the marker. -/
def skip (s : Store) (before : ℕ → Bool) : ℕ → Option Ptr → Option Ptr
  | 0, p => p
  | _ + 1, none => none
  | n + 1, some p =>
    if before (s.mem p).loc then skip s before n (getNextBlock s p) else some p

/-- No more blocks than bytes. -/
def Store.bytes (s : Store) : ℕ := (s.pages + 1) * pageSize

/-- The offsets at which blocks begin in a chunk, from one of them on. -/
def blockOffsets (s : Store) (c mapSize : ℕ) : ℕ → ℕ → List ℕ
  | 0, _ => []
  | n + 1, o =>
    if o < mapSize then o :: blockOffsets s c mapSize n (o + (s.mem ⟨c, o⟩).size + preheader)
    else []

def Begins (s : Store) (p : Ptr) : Prop :=
  ∃ map, s.map[p.chunk]? = some map ∧ p.off ∈ blockOffsets s p.chunk map.size map.size 0

/-- A written record. -/
def Written (s : Store) (p : Ptr) : Prop := Begins s p ∧ (s.mem p).isfree = false

/-! ### Markers -/

/-- A data store with its cache.  Of the readers, `issued` are the markers they got; one of
them is followed with its `marker`, what it has `seen`, and whether it has met the end. -/
structure Reader where
  run : Run
  cache : Option (ℕ × Ptr) := none
  coalesced : Bool := false
  issued : List ℕ := []
  marker : Option ℕ := none
  seen : List (ℕ × Ptr) := []
  ended : Bool := false

/-- `dsm_marker_reset`: the scan begins. -/
def Reader.reset (u : Reader) : Reader := { u with marker := none, seen := [], ended := false }

/-- What `cache_lookup` finds: a block, a computed address at which none begins, or nothing. -/
inductive Lookup
  | block (p : Ptr)
  | stray
  | miss

/-- The address in the only chunk that belongs to a marker. -/
def computed (s : Store) (map : FileMap) (mkr : ℕ) : Lookup :=
  if map.loc ≤ mkr ∧ mkr - map.loc ∈ blockOffsets s 0 map.size map.size 0 then
    .block ⟨0, mkr - map.loc⟩
  else .stray

/-- `cache_lookup` for a marker that is not in the cache. -/
def lookupComputed (u : Reader) (mkr : ℕ) : Lookup :=
  match u.coalesced, u.run.store.map with
  | false, [map] => computed u.run.store map mkr
  | _, _ => .miss

/-- `cache_lookup`. -/
def cacheLookup (u : Reader) (mkr : ℕ) : Lookup :=
  match u.cache with
  | some (loc, p) => if loc = mkr then .block p else lookupComputed u mkr
  | none => lookupComputed u mkr

/-- `dsm_read`: a record, or the end; `none` if it goes on from a stray pointer. -/
def dsmRead (u : Reader) : Option ℕ → Option (Option Ptr)
  | none =>
    match getEarlierBlock u.run.store with
    | none => some none
    | some p => some (if (u.run.store.mem p).isfree then getNextBlock u.run.store p else some p)
  | some mkr =>
    match cacheLookup u mkr with
    | .block p => some (skip u.run.store (· ≤ mkr) u.run.store.bytes (some p))
    | .stray => none
    | .miss =>
      some (skip u.run.store (· ≤ mkr) u.run.store.bytes (getEarlierBlock u.run.store))

/-- What `dsm_locate` returns: a pointer to a block, one to something else, or an error. -/
inductive Located
  | block (p : Ptr)
  | stray
  | invalid
deriving DecidableEq

/-- The last comparison of `dsm_locate`. -/
def exactly (s : Store) (mkr : ℕ) : Option Ptr → Located
  | some p => if (s.mem p).loc = mkr then .block p else .invalid
  | none => .invalid

/-- `dsm_locate`; `there` is what memory has for a location at a computed address at which no
block begins. -/
def dsmLocate (u : Reader) (there : ℕ) : Option ℕ → Located
  | none => .invalid
  | some mkr =>
    match cacheLookup u mkr with
    | .block p => exactly u.run.store mkr (some p)
    | .stray => if there = mkr then .stray else .invalid
    | .miss =>
      exactly u.run.store mkr
        (skip u.run.store (· < mkr) u.run.store.bytes (getEarlierBlock u.run.store))

inductive MarkerOp
  | data (op : Op)
  /-- Somebody reads on from a marker. -/
  | read (mkr : Option ℕ)
  /-- The scan reads on. -/
  | next
  | locate (mkr : Option ℕ) (there : ℕ)

/-- An allocation joins free blocks. -/
def coalesces (r : Run) : Op → Bool
  | .allocate n => Coalesces r.store (roundUp n 8)
  | _ => false

/-- A record was read: `cache_add`, and its location is the new marker. -/
def Reader.found (u : Reader) (p : Ptr) : Reader :=
  { u with
    cache := some ((u.run.store.mem p).loc, p)
    issued := (u.run.store.mem p).loc :: u.issued }

/-- The scan has read on. -/
def Reader.readOn (u : Reader) : Option Ptr → Reader
  | none => { u with ended := true }
  | some p =>
    { u.found p with
      marker := some (u.run.store.mem p).loc
      seen := u.seen ++ [((u.run.store.mem p).loc, p)] }

/-- `none` if an assertion fails, or after a stray pointer was returned or used. -/
def markerStep (u : Reader) : MarkerOp → Option Reader
  | .data op => (runStep u.run op).map fun r =>
    if coalesces u.run op then { u with run := r, cache := none, coalesced := true }
    else { u with run := r }
  | .read mkr => (dsmRead u mkr).map fun
    | none => u
    | some p => u.found p
  | .next => (dsmRead u u.marker).map u.readOn
  | .locate mkr there =>
    match dsmLocate u there mkr with
    | .block p => some { u with cache := some ((u.run.store.mem p).loc, p) }
    | .stray => none
    | .invalid => some u

/-- What the readers may do: read on from markers they got, and the scan until its end. -/
def Able (u : Reader) : MarkerOp → Prop
  | .data op => Allowed u.run op ∧ OpOk u.run op
  | .read mkr => ∀ m, mkr = some m → m ∈ u.issued
  | .next => u.ended = false
  | .locate _ _ => True

/-- A pointer is returned just for a written record at that location. -/
def LocateRight (u : Reader) : MarkerOp → Prop
  | .locate mkr there =>
    (∀ p, dsmLocate u there mkr = .block p ↔
      Written u.run.store p ∧ mkr = some (u.run.store.mem p).loc) ∧
    dsmLocate u there mkr ≠ .stray
  | _ => True

/-- The condition on `dsm_locate`: a block in the cache or at the computed address is in use, what
is at a computed address without a block does not look like one, and a marker that is
looked for is not that of a free first block. -/
def LocateOk (u : Reader) : MarkerOp → Prop
  | .locate (some mkr) there =>
    match cacheLookup u mkr with
    | .block p => (u.run.store.mem p).isfree = false
    | .stray => there ≠ mkr
    | .miss => ∀ p, getEarlierBlock u.run.store = some p →
      (u.run.store.mem p).isfree = true → (u.run.store.mem p).loc ≠ mkr
  | _ => True

/-- All steps can be taken, the scan returns records by increasing location and, when it has
come to the end, every record that was written all the time once; `dsm_locate` is right. -/
structure MarkersSound (u : Reader) (ops : List MarkerOp) : Prop where
  scan : ∃ t, exec markerStep u ops = some t ∧ (t.seen.map Prod.fst).Pairwise (· < ·) ∧
    (t.ended = true → ∀ p, Along markerStep (fun v _ => Written v.run.store p) u ops →
      (t.seen.map Prod.snd).count p = 1)
  locate : Along markerStep LocateRight u ops

/-! ### Chunks one behind the other -/

/-- The chunks lie one behind the other from `a` up to `n`. -/
def Contig : ℕ → ℕ → List FileMap → Prop
  | a, n, [] => a = n
  | a, n, m :: maps => m.loc = a ∧ Contig (a + m.size) n maps

variable {a b n c : ℕ} {m m' : FileMap} {maps : List FileMap}

theorem Contig.bounds (h : Contig a n maps) (hm : maps[c]? = some m) :
    a ≤ m.loc ∧ m.loc + m.size ≤ n := by
  induction maps generalizing a c m with
  | nil => cases hm
  | cons m₀ maps ih =>
    obtain ⟨rfl, hmaps⟩ := h
    have hend : m₀.loc + m₀.size ≤ n := by
      cases maps with
      | nil => exact hmaps.le
      | cons m₁ maps =>
        obtain ⟨hlow, hhigh⟩ := ih hmaps (c := 0) rfl
        omega
    cases c with
    | zero =>
      cases hm
      exact ⟨le_rfl, hend⟩
    | succ c =>
      obtain ⟨hlow, hhigh⟩ := ih hmaps (by simpa using hm)
      exact ⟨by omega, hhigh⟩

theorem Contig.ordered {c' : ℕ} (h : Contig a n maps) (hm : maps[c]? = some m)
    (hm' : maps[c']? = some m') (hlt : c < c') : m.loc + m.size ≤ m'.loc := by
  induction maps generalizing a c c' with
  | nil => cases hm
  | cons m₀ maps ih =>
    obtain ⟨rfl, hmaps⟩ := h
    obtain ⟨c', rfl⟩ := Nat.exists_eq_add_one_of_ne_zero (Nat.ne_of_gt (Nat.zero_lt_of_lt hlt))
    rw [List.getElem?_cons_succ] at hm'
    cases c with
    | zero =>
      cases hm
      exact (hmaps.bounds hm').1
    | succ c =>
      rw [List.getElem?_cons_succ] at hm
      exact ih hmaps hm hm' (Nat.lt_of_succ_lt_succ hlt)

/-- A new chunk at the end. -/
theorem Contig.concat (h : Contig a n maps) (size : ℕ) :
    Contig a (n + size) (maps ++ [⟨n, size⟩]) := by
  induction maps generalizing a with
  | nil =>
    obtain rfl : a = n := h
    exact ⟨rfl, rfl⟩
  | cons m₀ maps ih => exact ⟨h.1, ih h.2⟩

theorem Contig.grows {s s' : Store} (h : Contig pageSize s.bytes s.map) (hg : Grows s s') :
    Contig pageSize s'.bytes s'.map := by
  rcases hg with ⟨hmap, hpages⟩ | ⟨size, hmap, hpages⟩
  · rw [Store.bytes, hmap, hpages]
    exact h
  · rw [Store.bytes, hmap, hpages]
    exact h.concat size

/-! ### The blocks that begin in a chunk -/

theorem blockOffsets_eq {s : Store} {os : List ℕ} {k : ℕ}
    (h : Tiles preheader (fun o => (s.mem ⟨c, o⟩).size) a n os) (hk : n ≤ a + k) :
    blockOffsets s c n k a = os := by
  induction os generalizing a k with
  | nil =>
    obtain rfl : a = n := h
    cases k with
    | zero => rfl
    | succ k => exact if_neg (lt_irrefl a)
  | cons o os ih =>
    obtain ⟨rfl, hos⟩ := h
    have hle := hos.le
    have hpre : preheader = 24 := rfl
    obtain ⟨k, rfl⟩ : ∃ k', k = k' + 1 := Nat.exists_eq_add_one_of_ne_zero (by omega)
    rw [blockOffsets, if_pos (by omega), ih hos (by omega)]

section Laid

variable {s : Store} {tiles : ℕ → List ℕ} {p q : Ptr} {o : Option Ptr} {bound loc mkr : ℕ}

/-- Blocks fill the chunks, and chunks the file. -/
structure Laid (s : Store) (tiles : ℕ → List ℕ) : Prop where
  heap : HeapOk s.mem s.map s.pages tiles
  contig : Contig pageSize s.bytes s.map

theorem HeapOk.blockOffsets (h : HeapOk s.mem s.map s.pages tiles) (hm : s.map[c]? = some m) :
    blockOffsets s c m.size m.size 0 = tiles c :=
  blockOffsets_eq (h.tiled c m hm) (Nat.zero_add _).ge

theorem HeapOk.begins_iff (h : HeapOk s.mem s.map s.pages tiles) :
    Begins s p ↔ IsBlock s.map tiles p := by
  constructor
  · rintro ⟨m, hm, hoff⟩
    rw [h.blockOffsets hm] at hoff
    exact ⟨(List.getElem?_eq_some_iff.mp hm).1, hoff⟩
  · rintro ⟨hlt, hoff⟩
    have hm : s.map[p.chunk]? = some s.map[p.chunk] := List.getElem?_eq_getElem hlt
    exact ⟨_, hm, by rw [h.blockOffsets hm]; exact hoff⟩

/-- Where a block is, in its chunk and in the file. -/
theorem Laid.isBlock (h : Laid s tiles) (hp : IsBlock s.map tiles p) :
    ∃ m, s.map[p.chunk]? = some m ∧ (s.mem p).loc = m.loc + p.off ∧
      (s.mem p).loc + (s.mem p).size + preheader ≤ m.loc + m.size ∧ pageSize ≤ m.loc ∧
      m.loc + m.size ≤ s.bytes := by
  obtain ⟨m, hm, hloc, -, hle, -, -⟩ := h.heap.isBlock hp
  obtain ⟨hlow, hhigh⟩ := h.contig.bounds hm
  exact ⟨m, hm, hloc, by omega, hlow, hhigh⟩

/-- Of two blocks one ends before the other begins. -/
theorem Laid.disjoint (h : Laid s tiles) (hp : IsBlock s.map tiles p) (hq : IsBlock s.map tiles q)
    (hlt : (s.mem p).loc < (s.mem q).loc) :
    (s.mem p).loc + (s.mem p).size + preheader ≤ (s.mem q).loc := by
  obtain ⟨m, hm, hloc, hend, -, -⟩ := h.isBlock hp
  obtain ⟨m', hm', hloc', hend', -, -⟩ := h.isBlock hq
  rcases lt_trichotomy p.chunk q.chunk with hc | hc | hc
  · have hord := h.contig.ordered hm hm' hc
    omega
  · rw [hc, hm', Option.some_inj] at hm
    subst hm
    by_contra hover
    have hoff : q.off ∈ tiles p.chunk := hc ▸ hq.2
    refine (h.heap.tiled p.chunk m' (by rw [hc]; exact hm')).not_mem hp.2 (x := q.off) ?_ ?_ hoff
    · omega
    · show q.off < p.off + (s.mem p).size + preheader
      omega
  · have hord := h.contig.ordered hm' hm hc
    have hpre : preheader = 24 := rfl
    omega

theorem Laid.eq_of_loc (h : Laid s tiles) (hp : IsBlock s.map tiles p)
    (hq : IsBlock s.map tiles q) (heq : (s.mem p).loc = (s.mem q).loc) : p = q := by
  obtain ⟨m, hm, hloc, hend, -, -⟩ := h.isBlock hp
  obtain ⟨m', hm', hloc', hend', -, -⟩ := h.isBlock hq
  have hpre : preheader = 24 := rfl
  rcases lt_trichotomy p.chunk q.chunk with hc | hc | hc
  · have hord := h.contig.ordered hm hm' hc
    omega
  · rw [hc, hm', Option.some_inj] at hm
    subst hm
    obtain ⟨pc, po⟩ := p
    obtain ⟨qc, qo⟩ := q
    obtain rfl : pc = qc := hc
    have hoff : po = qo := by
      change _ = _ + po at hloc
      change _ = _ + qo at hloc'
      omega
    rw [hoff]
  · have hord := h.contig.ordered hm' hm hc
    omega

/-! ### The next block in use -/

def InUse (s : Store) (tiles : ℕ → List ℕ) (p : Ptr) : Prop :=
  IsBlock s.map tiles p ∧ (s.mem p).isfree = false

/-- The first block in use at a location or behind it. -/
def FirstUsed (s : Store) (tiles : ℕ → List ℕ) (bound : ℕ) : Option Ptr → Prop
  | none => ∀ q, InUse s tiles q → (s.mem q).loc < bound
  | some p => InUse s tiles p ∧ bound ≤ (s.mem p).loc ∧
    ∀ q, InUse s tiles q → bound ≤ (s.mem q).loc → (s.mem p).loc ≤ (s.mem q).loc

/-- No block in use is passed over. -/
theorem FirstUsed.mono (h : FirstUsed s tiles b o) (hle : a ≤ b)
    (hskip : ∀ q, InUse s tiles q → a ≤ (s.mem q).loc → b ≤ (s.mem q).loc) :
    FirstUsed s tiles a o := by
  cases o with
  | none =>
    intro q hq
    by_contra hge
    have hlt := h q hq
    have hle' := hskip q hq (not_lt.mp hge)
    omega
  | some p =>
    obtain ⟨hp, hge, hmin⟩ := h
    exact ⟨hp, hle.trans hge, fun q hq hqa => hmin q hq (hskip q hq hqa)⟩

/-- No block goes across a location. -/
def Boundary (s : Store) (tiles : ℕ → List ℕ) (loc : ℕ) : Prop :=
  ∀ q, IsBlock s.map tiles q → (s.mem q).loc < loc →
    (s.mem q).loc + (s.mem q).size + preheader ≤ loc

theorem Laid.boundary (h : Laid s tiles) (hp : IsBlock s.map tiles p) :
    Boundary s tiles ((s.mem p).loc + (s.mem p).size + preheader) := by
  intro q hq hlt
  rcases lt_trichotomy (s.mem p).loc (s.mem q).loc with hpq | hpq | hpq
  · have hle := h.disjoint hp hq hpq
    omega
  · rw [← h.eq_of_loc hp hq hpq]
  · have hle := h.disjoint hq hp hpq
    omega

/-- In a chunk a block begins at a boundary. -/
theorem Laid.block_at (h : Laid s tiles) (hm : s.map[c]? = some m) (hlow : m.loc ≤ loc)
    (hlt : loc < m.loc + m.size) (hb : Boundary s tiles loc) :
    IsBlock s.map tiles ⟨c, loc - m.loc⟩ ∧ (s.mem ⟨c, loc - m.loc⟩).loc = loc := by
  have hc := (List.getElem?_eq_some_iff.mp hm).1
  obtain ⟨o, ho, hle, hin⟩ := (h.heap.tiled c m hm).cover (x := loc - m.loc) (Nat.zero_le _)
    (by omega)
  have hloc := h.heap.loc c m hm o ho
  have hpre : preheader = 24 := rfl
  have heq : o = loc - m.loc := by
    by_contra hne
    have hcross := hb ⟨c, o⟩ ⟨hc, ho⟩ (by omega)
    change loc - m.loc < o + (s.mem ⟨c, o⟩).size + preheader at hin
    omega
  subst heq
  exact ⟨⟨hc, ho⟩, by omega⟩

theorem Laid.bytes_lt (h : Laid s tiles) : s.bytes < 2 ^ 31 := h.heap.bound

theorem nextInChunk_spec {k : ℕ} (h : Laid s tiles) (hm : s.map[c]? = some m)
    (hlow : m.loc ≤ loc) (hb : Boundary s tiles loc) (hk : m.loc + m.size ≤ loc + k) :
    match nextInChunk s c m k loc with
    | (_, some p) => FirstUsed s tiles loc (some p)
    | (loc', none) => m.loc + m.size ≤ loc' ∧ Boundary s tiles loc' ∧
      ∀ o, FirstUsed s tiles loc' o → FirstUsed s tiles loc o := by
  induction k generalizing loc with
  | zero => exact ⟨by omega, hb, fun _ ho => ho⟩
  | succ k ih =>
    rw [nextInChunk]
    by_cases hlt : loc < m.loc + m.size
    · obtain ⟨hblock, hloc⟩ := h.block_at hm hlow hlt hb
      obtain ⟨m', hm', -, hend, -, hbytes⟩ := h.isBlock hblock
      obtain rfl : m' = m := Option.some_inj.mp (hm'.symm.trans hm)
      have hbound := h.bytes_lt
      rw [if_pos hlt, sub32_of_le hlow (by omega)]
      set next : Ptr := ⟨c, loc - m'.loc⟩
      by_cases hfree : (s.mem next).isfree = true
      · -- a free block is passed over
        have hafter : u32 (loc + (preheader + (s.mem next).size))
            = (s.mem next).loc + (s.mem next).size + preheader := by
          rw [u32_of_lt (by omega)]
          omega
        have hpre : preheader = 24 := rfl
        have hskip : ∀ q, InUse s tiles q → loc ≤ (s.mem q).loc →
            (s.mem next).loc + (s.mem next).size + preheader ≤ (s.mem q).loc := by
          intro q hq hle
          refine h.disjoint hblock hq.1 (lt_of_le_of_ne (hloc.trans_le hle) fun heq => ?_)
          rw [h.eq_of_loc hblock hq.1 heq, hq.2] at hfree
          cases hfree
        have hlow' : m'.loc ≤ (s.mem next).loc + (s.mem next).size + preheader := by omega
        have hrec := ih hlow' (h.boundary hblock) (by omega)
        show match (if (s.mem next).isfree = true then nextInChunk s c m' k
          (u32 (loc + (preheader + (s.mem next).size))) else (loc, some next)) with
          | (_, some p) => FirstUsed s tiles loc (some p)
          | (loc', none) => m'.loc + m'.size ≤ loc' ∧ Boundary s tiles loc' ∧
            ∀ o, FirstUsed s tiles loc' o → FirstUsed s tiles loc o
        rw [if_pos hfree, hafter]
        generalize nextInChunk s c m' k _ = r at hrec ⊢
        obtain ⟨loc', _ | p⟩ := r
        · obtain ⟨hend', hb', hmono⟩ := hrec
          exact ⟨hend', hb', fun o ho => (hmono o ho).mono (by omega) hskip⟩
        · exact hrec.mono (by omega) hskip
      · have hused : InUse s tiles next := ⟨hblock, Bool.eq_false_iff.mpr hfree⟩
        show match (if (s.mem next).isfree = true then nextInChunk s c m' k
          (u32 (loc + (preheader + (s.mem next).size))) else (loc, some next)) with
          | (_, some p) => FirstUsed s tiles loc (some p)
          | (loc', none) => m'.loc + m'.size ≤ loc' ∧ Boundary s tiles loc' ∧
            ∀ o, FirstUsed s tiles loc' o → FirstUsed s tiles loc o
        rw [if_neg hfree]
        exact ⟨hused, hloc.ge, fun q _ hle => hloc.trans_le hle⟩
    · rw [if_neg hlt]
      exact ⟨not_lt.mp hlt, hb, fun _ ho => ho⟩

theorem nextInMaps_spec (h : Laid s tiles) (hmaps : s.map.drop c = maps)
    (hcontig : Contig a s.bytes maps) (hlow : a ≤ loc) (hb : Boundary s tiles loc) :
    FirstUsed s tiles loc (nextInMaps s c maps loc) := by
  induction maps generalizing c a loc with
  | nil =>
    intro q hq
    obtain ⟨m, -, -, hend, -, hbytes⟩ := h.isBlock hq.1
    have hpre : preheader = 24 := rfl
    obtain rfl : a = s.bytes := hcontig
    omega
  | cons m maps ih =>
    obtain ⟨rfl, hcontig⟩ := hcontig
    have hm : s.map[c]? = some m := by
      rw [← List.head?_drop, hmaps, List.head?_cons]
    have htail : s.map.drop (c + 1) = maps := by
      rw [← List.tail_drop, hmaps, List.tail_cons]
    have hchunk := nextInChunk_spec h hm hlow hb (Nat.add_le_add_right hlow _)
    rw [nextInMaps]
    generalize nextInChunk s c m m.size loc = r at hchunk ⊢
    obtain ⟨loc', _ | p⟩ := r
    · obtain ⟨hend, hb', hmono⟩ := hchunk
      exact hmono _ (ih htail hcontig hend hb')
    · exact hchunk

theorem getNextBlock_spec (h : Laid s tiles) (hp : IsBlock s.map tiles p) :
    FirstUsed s tiles ((s.mem p).loc + 1) (getNextBlock s p) := by
  obtain ⟨m, hm, hloc, hend, hlow, hbytes⟩ := h.isBlock hp
  have hbound := h.bytes_lt
  have hafter : u32 ((s.mem p).loc + preheader + (s.mem p).size)
      = (s.mem p).loc + (s.mem p).size + preheader := by
    rw [u32_of_lt (by omega)]
    omega
  have hpre : preheader = 24 := rfl
  rw [getNextBlock, hafter]
  refine (nextInMaps_spec h List.drop_zero h.contig (by omega) (h.boundary hp)).mono (by omega) ?_
  exact fun q hq hle => h.disjoint hp hq.1 hle

/-! ### Reading on -/

theorem getEarlierBlock_spec (h : Laid s tiles) :
    match getEarlierBlock s with
    | none => ∀ q, ¬ IsBlock s.map tiles q
    | some p => IsBlock s.map tiles p ∧ (s.mem p).loc = pageSize ∧
      ∀ q, IsBlock s.map tiles q → pageSize ≤ (s.mem q).loc := by
  rw [getEarlierBlock]
  cases hmap : s.map with
  | nil =>
    intro q hq
    exact absurd hq.1 (Nat.not_lt_zero _)
  | cons m maps =>
    have hm : s.map[0]? = some m := by rw [hmap]; rfl
    obtain ⟨after, htiles, -⟩ := h.heap.cons hm
    have hmem : (0 : ℕ) ∈ tiles 0 := by rw [htiles]; exact List.mem_cons_self
    have hcontig := h.contig
    rw [hmap] at hcontig
    refine ⟨⟨Nat.succ_pos _, hmem⟩, ?_, fun q hq => ?_⟩
    · rw [h.heap.loc 0 m hm 0 hmem, hcontig.1, Nat.add_zero]
    · obtain ⟨m', -, hloc, -, hlow, -⟩ := h.isBlock (p := q) (by rw [hmap]; exact hq)
      omega

theorem skip_none (s : Store) (before : ℕ → Bool) (n : ℕ) : skip s before n none = none := by
  cases n <;> rfl

/-- From a block on to the first one in use at a location or behind it, if it is not there yet. -/
theorem skip_spec {before : ℕ → Bool} (h : Laid s tiles)
    (hbefore : ∀ l, before l = true ↔ l < bound) (hp : IsBlock s.map tiles p)
    (hn : s.bytes < (s.mem p).loc + n) :
    bound ≤ (s.mem p).loc ∧ skip s before n (some p) = some p ∨
      (s.mem p).loc < bound ∧ FirstUsed s tiles bound (skip s before n (some p)) := by
  induction n generalizing p with
  | zero =>
    obtain ⟨m, -, -, hend, -, hbytes⟩ := h.isBlock hp
    omega
  | succ n ih =>
    rw [skip]
    by_cases hlt : (s.mem p).loc < bound
    · refine Or.inr ⟨hlt, ?_⟩
      rw [if_pos ((hbefore _).mpr hlt)]
      have hnext := getNextBlock_spec h hp
      cases hget : getNextBlock s p with
      | none =>
        rw [hget] at hnext
        rw [skip_none]
        intro q hq
        have hle := hnext q hq
        omega
      | some q =>
        rw [hget] at hnext
        obtain ⟨hused, hge, hmin⟩ := hnext
        rcases ih hused.1 (by omega) with ⟨hle, heq⟩ | ⟨-, hfirst⟩
        · rw [heq]
          exact ⟨hused, hle, fun q' hq' hle' => hmin q' hq' (by omega)⟩
        · exact hfirst
    · rw [if_neg (by rw [hbefore]; exact hlt)]
      exact Or.inl ⟨not_lt.mp hlt, rfl⟩

/-- The search from the first block. -/
theorem skip_first {before : ℕ → Bool} (h : Laid s tiles)
    (hbefore : ∀ l, before l = true ↔ l < bound) (hbound : pageSize < bound) :
    FirstUsed s tiles bound (skip s before s.bytes (getEarlierBlock s)) := by
  have hspec := getEarlierBlock_spec h
  cases hfirst : getEarlierBlock s with
  | none =>
    rw [hfirst] at hspec
    rw [skip_none]
    exact fun q hq => absurd hq.1 (hspec q)
  | some p =>
    rw [hfirst] at hspec
    obtain ⟨hp, hloc, -⟩ := hspec
    have hpage : pageSize = 1024 := rfl
    rcases skip_spec h hbefore hp (n := s.bytes) (by omega) with ⟨hle, -⟩ | ⟨-, hused⟩
    · omega
    · exact hused

end Laid

/-! ### What holds of readers -/

variable {u v : Reader} {tiles : ℕ → List ℕ} {p q : Ptr} {mkr there : ℕ} {l : ℕ}

/-- The cache and, before any blocks are joined, the markers are those of blocks. -/
structure Good (u : Reader) (tiles : ℕ → List ℕ) : Prop where
  inv : RunInv u.run tiles
  contig : Contig pageSize u.run.store.bytes u.run.store.map
  cache : ∀ l p, u.cache = some (l, p) →
    IsBlock u.run.store.map tiles p ∧ (u.run.store.mem p).loc = l
  issued : ∀ l ∈ u.issued, pageSize ≤ l
  fresh : u.coalesced = false → ∀ l ∈ u.issued, ∃ p, IsBlock u.run.store.map tiles p ∧
    (u.run.store.mem p).loc = l
  marker : ∀ l, u.marker = some l → l ∈ u.issued

theorem Good.laid (h : Good u tiles) : Laid u.run.store tiles := ⟨h.inv.inv.heap, h.contig⟩

/-- In a single chunk a marker has a block at the computed address, if it has one at all. -/
theorem computed_spec {s : Store} {map : FileMap} (mkr : ℕ) (h : Laid s tiles)
    (hmap : s.map = [map]) :
    match computed s map mkr with
    | .block p => IsBlock s.map tiles p ∧ (s.mem p).loc = mkr
    | .stray => ∀ p, IsBlock s.map tiles p → (s.mem p).loc ≠ mkr
    | .miss => False := by
  have hm : s.map[0]? = some map := by rw [hmap]; rfl
  rw [computed, h.heap.blockOffsets hm]
  by_cases hin : map.loc ≤ mkr ∧ mkr - map.loc ∈ tiles 0
  · obtain ⟨hle, hmem⟩ := hin
    rw [if_pos ⟨hle, hmem⟩]
    have hloc := h.heap.loc 0 map hm _ hmem
    exact ⟨⟨by rw [hmap]; exact Nat.one_pos, hmem⟩, by omega⟩
  · rw [if_neg hin]
    rintro p hp rfl
    obtain ⟨m, hm', hloc, -, -, -⟩ := h.isBlock hp
    have hchunk : p.chunk = 0 := by
      have hlt := hp.1
      rw [hmap] at hlt
      exact Nat.lt_one_iff.mp hlt
    rw [hchunk, hm, Option.some_inj] at hm'
    subst hm'
    have hoff : (s.mem p).loc - map.loc = p.off := by omega
    exact hin ⟨by omega, by rw [hoff, ← hchunk]; exact hp.2⟩

/-- What the cache finds for a marker is its block; a stray address belongs to no block. -/
def LookupOk (u : Reader) (tiles : ℕ → List ℕ) (mkr : ℕ) : Lookup → Prop
  | .block p => IsBlock u.run.store.map tiles p ∧ (u.run.store.mem p).loc = mkr
  | .stray => u.coalesced = false ∧
    ∀ p, IsBlock u.run.store.map tiles p → (u.run.store.mem p).loc ≠ mkr
  | .miss => True

theorem lookupComputed_spec (h : Good u tiles) : LookupOk u tiles mkr (lookupComputed u mkr) := by
  rw [lookupComputed]
  split
  · rename_i map hno hmap
    have hspec := computed_spec mkr h.laid hmap
    generalize computed u.run.store map mkr = r at hspec ⊢
    cases r with
    | block p => exact hspec
    | stray => exact ⟨hno, hspec⟩
    | miss => trivial
  · trivial

theorem cacheLookup_spec (mkr : ℕ) (h : Good u tiles) : LookupOk u tiles mkr (cacheLookup u mkr) := by
  rw [cacheLookup]
  split
  · rename_i loc p hcache
    by_cases heq : loc = mkr
    · rw [if_pos heq]
      subst heq
      exact h.cache loc p hcache
    · rw [if_neg heq]
      exact lookupComputed_spec h
  · exact lookupComputed_spec h

/-- Where a reader begins to look for the next record. -/
def nextLoc : Option ℕ → ℕ
  | none => 0
  | some mkr => mkr + 1

/-- `dsm_read` returns the first record in use behind a marker that was issued. -/
theorem dsmRead_spec {mkr : Option ℕ} (h : Good u tiles) (hmkr : ∀ l, mkr = some l → l ∈ u.issued) :
    ∃ o, dsmRead u mkr = some o ∧ FirstUsed u.run.store tiles (nextLoc mkr) o := by
  have hl := h.laid
  cases mkr with
  | none =>
    have hspec := getEarlierBlock_spec hl
    rw [dsmRead]
    cases hfirst : getEarlierBlock u.run.store with
    | none =>
      rw [hfirst] at hspec
      exact ⟨none, rfl, fun q hq => absurd hq.1 (hspec q)⟩
    | some p =>
      rw [hfirst] at hspec
      obtain ⟨hp, hloc, hmin⟩ := hspec
      refine ⟨_, rfl, ?_⟩
      by_cases hfree : (u.run.store.mem p).isfree = true
      · rw [if_pos hfree]
        refine (getNextBlock_spec hl hp).mono (Nat.zero_le _) fun q hq _ => ?_
        refine lt_of_le_of_ne (hloc.trans_le (hmin q hq.1)) fun heq => ?_
        rw [hl.eq_of_loc hp hq.1 heq, hq.2] at hfree
        cases hfree
      · rw [if_neg hfree]
        exact ⟨⟨hp, Bool.eq_false_iff.mpr hfree⟩, Nat.zero_le _,
          fun q hq _ => hloc.trans_le (hmin q hq.1)⟩
  | some mkr =>
    have hin := hmkr mkr rfl
    have hbefore (l : ℕ) : decide (l ≤ mkr) = true ↔ l < mkr + 1 := by
      rw [decide_eq_true_iff, Nat.lt_succ_iff]
    have hspec := cacheLookup_spec mkr h
    rw [dsmRead]
    cases hlookup : cacheLookup u mkr with
    | block p =>
      rw [hlookup] at hspec
      obtain ⟨hp, hloc⟩ := hspec
      have hlow := h.issued mkr hin
      have hpage : pageSize = 1024 := rfl
      refine ⟨_, rfl, ?_⟩
      rcases skip_spec hl hbefore hp (n := u.run.store.bytes) (by omega) with ⟨hle, -⟩ | ⟨-, hused⟩
      · omega
      · exact hused
    | stray =>
      rw [hlookup] at hspec
      obtain ⟨hno, hnone⟩ := hspec
      obtain ⟨p, hp, hloc⟩ := h.fresh hno mkr hin
      exact absurd hloc (hnone p hp)
    | miss =>
      have hlow := h.issued mkr hin
      exact ⟨_, rfl, skip_first hl hbefore (by show pageSize < mkr + 1; omega)⟩

theorem Laid.written_iff {s : Store} (h : Laid s tiles) : Written s p ↔ InUse s tiles p :=
  and_congr_left fun _ => h.heap.begins_iff

/-- `dsm_locate` is right about a marker. -/
def LocatesUsed (s : Store) (tiles : ℕ → List ℕ) (mkr : ℕ) (r : Located) : Prop :=
  (∀ p, r = .block p ↔ InUse s tiles p ∧ (s.mem p).loc = mkr) ∧ r ≠ .stray

/-- A block at the marker is found: right if it is in use. -/
theorem locatesUsed_block {s : Store} (h : Laid s tiles) (hp : IsBlock s.map tiles p)
    (hloc : (s.mem p).loc = mkr) :
    LocatesUsed s tiles mkr (exactly s mkr (some p)) ↔ (s.mem p).isfree = false := by
  rw [exactly, if_pos hloc]
  constructor
  · exact fun hright => ((hright.1 p).mp rfl).1.2
  · refine fun hused => ⟨fun q => ⟨?_, ?_⟩, Located.noConfusion⟩
    · rintro ⟨⟩
      exact ⟨⟨hp, hused⟩, hloc⟩
    · rintro ⟨hq, hlocq⟩
      rw [h.eq_of_loc hp hq.1 (hloc.trans hlocq.symm)]

theorem locatesUsed_invalid {s : Store}
    (hnone : ∀ p, InUse s tiles p → (s.mem p).loc ≠ mkr) : LocatesUsed s tiles mkr .invalid :=
  ⟨fun p => ⟨Located.noConfusion, fun hp => absurd hp.2 (hnone p hp.1)⟩, Located.noConfusion⟩

/-- The first block in use that is not before the marker is the one, or there is none. -/
theorem locatesUsed_first {s : Store} {o : Option Ptr} (h : Laid s tiles)
    (ho : FirstUsed s tiles mkr o) : LocatesUsed s tiles mkr (exactly s mkr o) := by
  cases o with
  | none => exact locatesUsed_invalid fun p hp => (ho p hp).ne
  | some q =>
    obtain ⟨hq, hge, hmin⟩ := ho
    by_cases hloc : (s.mem q).loc = mkr
    · exact (locatesUsed_block h hq.1 hloc).mpr hq.2
    · rw [exactly, if_neg hloc]
      refine locatesUsed_invalid fun p hp heq => hloc ?_
      exact le_antisymm (heq ▸ hmin p hp heq.ge) hge

/-- The search goes wrong just where it begins at a free block that has the marker. -/
theorem locatesUsed_skip {s : Store} (h : Laid s tiles) :
    LocatesUsed s tiles mkr (exactly s mkr (skip s (· < mkr) s.bytes (getEarlierBlock s))) ↔
      ∀ p, getEarlierBlock s = some p → (s.mem p).isfree = true → (s.mem p).loc ≠ mkr := by
  have hbefore (l : ℕ) : decide (l < mkr) = true ↔ l < mkr := decide_eq_true_iff
  have hspec := getEarlierBlock_spec h
  cases hfirst : getEarlierBlock s with
  | none =>
    rw [hfirst] at hspec
    rw [skip_none]
    exact ⟨fun _ p hp => (Option.some_ne_none p hp.symm).elim,
      fun _ => locatesUsed_invalid fun p hp => absurd hp.1 (hspec p)⟩
  | some p =>
    rw [hfirst] at hspec
    obtain ⟨hp, hloc, hmin⟩ := hspec
    have hpage : pageSize = 1024 := rfl
    rcases skip_spec h hbefore hp (n := s.bytes) (by omega) with ⟨hle, heq⟩ | ⟨hlt, hused⟩
    · rw [heq]
      by_cases hmkr : (s.mem p).loc = mkr
      · rw [locatesUsed_block h hp hmkr]
        constructor
        · rintro hused q ⟨⟩ hfree
          rw [hused] at hfree
          cases hfree
        · exact fun hno => Bool.eq_false_iff.mpr fun hfree => hno p rfl hfree hmkr
      · rw [exactly, if_neg hmkr]
        refine ⟨fun _ q hq _ => Option.some_inj.mp hq ▸ hmkr, fun _ => ?_⟩
        refine locatesUsed_invalid fun q hq => ?_
        have hge := hmin q hq.1
        omega
    · refine ⟨fun _ q hq _ => ?_, fun _ => locatesUsed_first h hused⟩
      rw [← Option.some_inj.mp hq]
      exact hlt.ne

theorem exactly_block {s : Store} {o : Option Ptr} (h : exactly s mkr o = .block p) :
    o = some p := by
  cases o with
  | none => cases h
  | some q =>
    rw [exactly] at h
    split at h
    · cases h
      rfl
    · cases h

/-- Also where it is wrong, what `dsm_locate` takes for a block is one. -/
theorem dsmLocate_block {mkr : Option ℕ} (h : Good u tiles)
    (hlocate : dsmLocate u there mkr = .block p) : IsBlock u.run.store.map tiles p := by
  obtain _ | mkr := mkr
  · cases hlocate
  have hl := h.laid
  have hspec := cacheLookup_spec mkr h
  rw [dsmLocate] at hlocate
  cases hlookup : cacheLookup u mkr with
  | block q =>
    rw [hlookup] at hspec hlocate
    obtain rfl := Option.some_inj.mp (exactly_block hlocate)
    exact hspec.1
  | stray =>
    rw [hlookup] at hlocate
    change (if there = mkr then Located.stray else .invalid) = .block p at hlocate
    split at hlocate
    · cases hlocate
    · cases hlocate
  | miss =>
    rw [hlookup] at hlocate
    have hskip := exactly_block hlocate
    have hfirst := getEarlierBlock_spec hl
    cases hget : getEarlierBlock u.run.store with
    | none =>
      rw [hget] at hskip
      rw [skip_none] at hskip
      cases hskip
    | some q =>
      rw [hget] at hfirst hskip
      obtain ⟨hq, hloc, -⟩ := hfirst
      have hbefore (l : ℕ) : decide (l < mkr) = true ↔ l < mkr := decide_eq_true_iff
      have hpage : pageSize = 1024 := rfl
      rcases skip_spec hl hbefore hq (n := u.run.store.bytes) (by omega) with ⟨-, heq⟩ | ⟨-, hused⟩
      · obtain rfl := Option.some_inj.mp (heq.symm.trans hskip)
        exact hq
      · rw [hskip] at hused
        exact hused.1.1

theorem locateRight_iff (h : Good u tiles) (op : MarkerOp) :
    LocateRight u op ↔ LocateOk u op := by
  cases op with
  | data op => exact Iff.rfl
  | read mkr => exact Iff.rfl
  | next => exact Iff.rfl
  | locate mkr there =>
    obtain _ | mkr := mkr
    · exact ⟨fun _ => trivial, fun _ => ⟨fun p => ⟨Located.noConfusion,
        fun hp => (Option.some_ne_none _ hp.2.symm).elim⟩, Located.noConfusion⟩⟩
    have hl := h.laid
    have hright : LocateRight u (.locate (some mkr) there) ↔
        LocatesUsed u.run.store tiles mkr (dsmLocate u there (some mkr)) := by
      simp only [LocateRight, LocatesUsed, hl.written_iff, Option.some_inj, eq_comm]
    have hspec := cacheLookup_spec mkr h
    rw [hright, dsmLocate, LocateOk]
    cases hlookup : cacheLookup u mkr with
    | block p =>
      rw [hlookup] at hspec
      exact locatesUsed_block hl hspec.1 hspec.2
    | stray =>
      rw [hlookup] at hspec
      obtain ⟨-, hnone⟩ := hspec
      show LocatesUsed _ _ _ (if there = mkr then .stray else .invalid) ↔ there ≠ mkr
      by_cases heq : there = mkr
      · rw [if_pos heq]
        exact ⟨fun hno => absurd rfl hno.2, fun hne => absurd heq hne⟩
      · rw [if_neg heq]
        exact ⟨fun _ => heq, fun _ => locatesUsed_invalid fun p hp => hnone p hp.1⟩
    | miss => exact locatesUsed_skip hl

/-! ### Steps -/

theorem lessPending_map {s s' : Store} (h : lessPending s = some s') :
    s'.map = s.map ∧ s'.pages = s.pages := by
  rw [lessPending] at h
  split at h
  · rw [← Option.some_inj.mp h]
    exact ⟨rfl, rfl⟩
  · cases h

theorem dsmWrite_map {s s' : Store} {st : Status} (h : dsmWrite s p = some (s', st)) :
    s'.map = s.map ∧ s'.pages = s.pages := by
  rw [dsmWrite] at h
  split at h
  · cases h
    exact ⟨rfl, rfl⟩
  split at h
  · cases h
    exact ⟨rfl, rfl⟩
  obtain ⟨w, hw, heq⟩ := Option.bind_eq_some_iff.mp h
  cases heq
  obtain ⟨hmap, hpages⟩ := lessPending_map hw
  rw [hmap, hpages]
  split_ifs <;> simp [writeBlock, writeHeader, Store.set]

theorem dsmWriteHdr_map {s s' : Store} {st : Status} {size : ℕ}
    (h : dsmWriteHdr s p size = some (s', st)) : s'.map = s.map ∧ s'.pages = s.pages := by
  rw [dsmWriteHdr] at h
  split at h
  · cases h
    exact ⟨rfl, rfl⟩
  split at h
  · cases h
    exact ⟨rfl, rfl⟩
  dsimp only at h
  split at h
  · obtain ⟨w, hw, heq⟩ := Option.bind_eq_some_iff.mp h
    cases heq
    obtain ⟨hmap, hpages⟩ := lessPending_map hw
    exact ⟨(write_map _ _).trans hmap, (write_pages _ _).trans hpages⟩
  · cases h
    exact ⟨write_map _ _, write_pages _ _⟩

theorem dsmDetach_map {s s' : Store} {st : Status} (h : dsmDetach s p = some (s', st)) :
    s'.map = s.map ∧ s'.pages = s.pages := by
  rw [dsmDetach] at h
  split at h
  · cases h
    exact ⟨rfl, rfl⟩
  split at h
  · cases h
    exact ⟨write_map _ _, write_pages _ _⟩
  · cases h
    exact ⟨rfl, rfl⟩

theorem dsmFree_map {s s' : Store} {st : Status} (h : dsmFree s p = some (s', st)) :
    s'.map = s.map ∧ s'.pages = s.pages := by
  rw [dsmFree] at h
  split at h
  · cases h
    exact ⟨rfl, rfl⟩
  dsimp only at h
  split at h
  · obtain ⟨w, hw, heq⟩ := Option.bind_eq_some_iff.mp h
    cases heq
    rw [show (makeFree w p).map = w.map from write_map _ _,
      show (makeFree w p).pages = w.pages from write_pages _ _]
    exact lessPending_map hw
  · cases h
    exact ⟨write_map _ _, write_pages _ _⟩

/-- What an operation on records does to the chunks and to where blocks begin. -/
structure DataStep (r r' : Run) (tiles : ℕ → List ℕ) (op : Op) : Prop where
  grows : Grows r.store r'.store
  inv : ∃ tiles', RunInv r' tiles' ∧
    (coalesces r op = false → Persist r.store r'.store tiles tiles')

/-- An operation that leaves the chunks and the blocks as they are. -/
theorem dataStep_of_map {r r' : Run} {op : Op} (hinv : RunInv r' tiles)
    (hmap : r'.store.map = r.store.map ∧ r'.store.pages = r.store.pages) :
    DataStep r r' tiles op :=
  ⟨.inl hmap, tiles, hinv, fun _ q hq => by rw [hmap.1]; exact hq⟩

/-- The result of an operation that runs, from what it does to the store. -/
theorem map_eq_some {r' : Run} {o : Option (Store × Status)} {f : Store × Status → Run}
    (h : o.map f = some r') : ∃ s st, o = some (s, st) ∧ f (s, st) = r' := by
  obtain ⟨⟨s, st⟩, ho, hf⟩ := Option.map_eq_some_iff.mp h
  exact ⟨s, st, ho, hf⟩

theorem runStep_spec {r : Run} {op : Op} (h : RunInv r tiles) (ha : Allowed r op)
    (hok : OpOk r op) : ∃ r', runStep r op = some r' ∧ DataStep r r' tiles op := by
  cases op with
  | allocate n =>
    obtain ⟨tiles', hinv, hpending, -, hheld, hcookie, hsize, hgrows, hpersist⟩ :=
      dsmAllocate_spec h.inv h.pending ha hok
    exact ⟨_, rfl, hgrows, tiles', h.handOut hinv hpending hheld hcookie hsize, hpersist⟩
  | write p =>
    obtain ⟨r', hstep, hinv⟩ := write_runInv h ha hok
    obtain ⟨s, st, hs, rfl⟩ := map_eq_some hstep
    exact ⟨_, hstep, dataStep_of_map hinv (dsmWrite_map hs)⟩
  | writeHdr p size =>
    obtain ⟨r', hstep, hinv⟩ := writeHdr_runInv h ha size
    obtain ⟨s, st, hs, rfl⟩ := map_eq_some hstep
    exact ⟨_, hstep, dataStep_of_map hinv (dsmWriteHdr_map hs)⟩
  | detach p =>
    obtain ⟨r', hstep, hinv⟩ := detach_runInv h ha
    obtain ⟨s, st, hs, rfl⟩ := map_eq_some hstep
    exact ⟨_, hstep, dataStep_of_map hinv (dsmDetach_map hs)⟩
  | free p =>
    obtain ⟨r', hstep, hinv⟩ := free_runInv h ha
    obtain ⟨s, st, hs, rfl⟩ := map_eq_some hstep
    exact ⟨_, hstep, dataStep_of_map hinv (dsmFree_map hs)⟩

theorem Grows.chunk {s s' : Store} (hg : Grows s s') (hm : s.map[c]? = some m) :
    s'.map[c]? = some m := by
  rcases hg with ⟨hmap, -⟩ | ⟨size, hmap, -⟩
  · rw [hmap]
    exact hm
  · rw [hmap, List.getElem?_append_left (List.getElem?_eq_some_iff.mp hm).1]
    exact hm

/-- A block that stays keeps its location. -/
theorem loc_eq_of_grows {s s' : Store} {tiles' : ℕ → List ℕ} (h : Laid s tiles)
    (h' : Laid s' tiles') (hg : Grows s s') (hp : IsBlock s.map tiles p)
    (hp' : IsBlock s'.map tiles' p) : (s'.mem p).loc = (s.mem p).loc := by
  obtain ⟨m, hm, hloc, -, -, -⟩ := h.isBlock hp
  obtain ⟨m', hm', hloc', -, -, -⟩ := h'.isBlock hp'
  obtain rfl : m = m' := Option.some_inj.mp ((hg.chunk hm).symm.trans hm')
  rw [hloc, hloc']

theorem Good.data {r' : Run} {op : Op} (h : Good u tiles) (hd : DataStep u.run r' tiles op) :
    ∃ tiles', Good (if coalesces u.run op then
      { u with run := r', cache := none, coalesced := true } else { u with run := r' }) tiles' := by
  obtain ⟨hgrows, tiles', hinv, hpersist⟩ := hd
  have hcontig := h.contig.grows hgrows
  refine ⟨tiles', ?_⟩
  by_cases hco : coalesces u.run op = true
  · -- blocks are joined: what the cache and the markers named may be gone
    rw [if_pos hco]
    exact ⟨hinv, hcontig, fun l p hc => (Option.some_ne_none _ hc.symm).elim, h.issued,
      fun hno => Bool.noConfusion hno, h.marker⟩
  · rw [if_neg hco]
    have hkeep := hpersist (Bool.eq_false_iff.mpr hco)
    have hl : Laid r'.store tiles' := ⟨hinv.inv.heap, hcontig⟩
    refine ⟨hinv, hcontig, fun l p hc => ?_, h.issued, fun hno l hin => ?_, h.marker⟩
    · obtain ⟨hp, hloc⟩ := h.cache l p hc
      have hp' := hkeep p hp
      exact ⟨hp', (loc_eq_of_grows h.laid hl hgrows hp hp').trans hloc⟩
    · obtain ⟨p, hp, hloc⟩ := h.fresh hno l hin
      have hp' := hkeep p hp
      exact ⟨p, hp', (loc_eq_of_grows h.laid hl hgrows hp hp').trans hloc⟩

theorem Good.found (h : Good u tiles) (hp : IsBlock u.run.store.map tiles p) :
    Good (u.found p) tiles where
  inv := h.inv
  contig := h.contig
  cache := by
    rintro l q ⟨⟩
    exact ⟨hp, rfl⟩
  issued := by
    intro l hin
    rcases List.mem_cons.mp hin with rfl | hin
    · obtain ⟨m, -, hloc, -, hlow, -⟩ := h.laid.isBlock hp
      omega
    · exact h.issued l hin
  fresh := by
    intro hno l hin
    rcases List.mem_cons.mp hin with rfl | hin
    · exact ⟨p, hp, rfl⟩
    · exact h.fresh hno l hin
  marker := fun l hl => List.mem_cons_of_mem _ (h.marker l hl)

/-! ### A scan -/

/-- Where a block begins in the file, by its chunk. -/
def PlacedAt (map : List FileMap) (p : Ptr) (l : ℕ) : Prop :=
  ∃ m, map[p.chunk]? = some m ∧ l = m.loc + p.off

/-- The records of a scan come by increasing location, up to its marker. -/
structure Scanned (u : Reader) : Prop where
  sorted : (u.seen.map Prod.fst).Pairwise (· < ·)
  below : ∀ e ∈ u.seen, e.1 < nextLoc u.marker
  placed : ∀ e ∈ u.seen, PlacedAt u.run.store.map e.2 e.1

/-- The scan has returned a record or comes to it. -/
def Ahead (u : Reader) (p : Ptr) : Prop :=
  p ∈ u.seen.map Prod.snd ∨
    u.ended = false ∧ ∃ l, PlacedAt u.run.store.map p l ∧ nextLoc u.marker ≤ l

theorem PlacedAt.unique {map : List FileMap} {l' : ℕ} (h : PlacedAt map p l)
    (h' : PlacedAt map p l') : l = l' := by
  obtain ⟨m, hm, rfl⟩ := h
  obtain ⟨m', hm', rfl⟩ := h'
  rw [Option.some_inj.mp (hm.symm.trans hm')]

theorem Laid.placedAt {s : Store} (h : Laid s tiles) (hp : IsBlock s.map tiles p) :
    PlacedAt s.map p (s.mem p).loc := by
  obtain ⟨m, hm, hloc, -, -, -⟩ := h.isBlock hp
  exact ⟨m, hm, hloc⟩

/-- No record comes twice. -/
theorem Scanned.nodup (h : Scanned u) : (u.seen.map Prod.snd).Nodup := by
  have hsorted : u.seen.Pairwise fun e e' => e.1 < e'.1 := List.pairwise_map.mp h.sorted
  rw [List.Nodup, List.pairwise_map]
  refine hsorted.imp_of_mem fun {e e'} he he' hlt heq => ?_
  have hplaced := h.placed e he
  rw [heq] at hplaced
  exact hlt.ne (hplaced.unique (h.placed e' he'))

/-- What a step keeps: the invariant, the order of the scan, and that it misses nothing. -/
structure Keeps (u v : Reader) : Prop where
  good : ∃ tiles, Good v tiles
  scanned : Scanned u → Scanned v
  ahead : ∀ p, Written u.run.store p → Ahead u p → Ahead v p

/-- A step that does not go on with the scan. -/
theorem keeps_of_seen (hgood : Good v tiles) (hgrows : Grows u.run.store v.run.store)
    (hmarker : v.marker = u.marker) (hseen : v.seen = u.seen) (hended : v.ended = u.ended) :
    Keeps u v where
  good := ⟨tiles, hgood⟩
  scanned h := by
    refine ⟨by rw [hseen]; exact h.sorted, ?_, ?_⟩
    · rw [hseen, hmarker]
      exact h.below
    · rw [hseen]
      intro e he
      obtain ⟨m, hm, hl⟩ := h.placed e he
      exact ⟨m, hgrows.chunk hm, hl⟩
  ahead p _ h := by
    rw [Ahead, hseen, hended, hmarker]
    refine h.imp_right fun ⟨hno, l, ⟨m, hm, hl⟩, hle⟩ => ⟨hno, l, ⟨m, hgrows.chunk hm, hl⟩, hle⟩

theorem grows_refl (s : Store) : Grows s s := .inl ⟨rfl, rfl⟩

/-- The scan reads on. -/
theorem keeps_next {o : Option Ptr} (h : Good u tiles)
    (ho : FirstUsed u.run.store tiles (nextLoc u.marker) o) :
    Keeps u (u.readOn o) := by
  have hl := h.laid
  cases o with
  | none =>
    refine ⟨⟨tiles, h.inv, h.contig, h.cache, h.issued, h.fresh, h.marker⟩,
      fun hs => ⟨hs.sorted, hs.below, hs.placed⟩, fun p hw hahead => ?_⟩
    -- nothing in use is left
    rcases hahead with hseen | ⟨-, l, hplaced, hle⟩
    · exact .inl hseen
    · have hp := hl.written_iff.mp hw
      have hlt := ho p hp
      rw [hplaced.unique (hl.placedAt hp.1)] at hle
      omega
  | some p =>
    obtain ⟨hp, hge, hmin⟩ := ho
    have hfound := h.found hp.1
    refine ⟨⟨tiles, hfound.inv, hfound.contig, hfound.cache, hfound.issued, hfound.fresh, ?_⟩,
      fun hs => ⟨?_, ?_, ?_⟩, fun q hw hahead => ?_⟩
    · rintro l ⟨⟩
      exact List.mem_cons_self
    · show ((u.seen ++ [((u.run.store.mem p).loc, p)]).map Prod.fst).Pairwise _
      rw [List.map_append, List.pairwise_append]
      refine ⟨hs.sorted, List.pairwise_singleton _ _, fun l hin l' hin' => ?_⟩
      obtain ⟨e, he, rfl⟩ := List.mem_map.mp hin
      obtain rfl : l' = (u.run.store.mem p).loc := List.mem_singleton.mp hin'
      exact (hs.below e he).trans_le hge
    · intro e he
      rcases List.mem_append.mp he with he | he
      · exact ((hs.below e he).trans_le hge).trans (Nat.lt_succ_self _)
      · rw [List.mem_singleton.mp he]
        exact Nat.lt_succ_self _
    · intro e he
      rcases List.mem_append.mp he with he | he
      · exact hs.placed e he
      · rw [List.mem_singleton.mp he]
        exact hl.placedAt hp.1
    · show q ∈ (u.seen ++ [((u.run.store.mem p).loc, p)]).map Prod.snd ∨ _
      rw [List.map_append, List.mem_append]
      rcases hahead with hseen | ⟨hno, l, hplaced, hle⟩
      · exact .inl (.inl hseen)
      · have hq := hl.written_iff.mp hw
        have hloc := hplaced.unique (hl.placedAt hq.1)
        rw [hloc] at hle
        by_cases heq : (u.run.store.mem p).loc = (u.run.store.mem q).loc
        · obtain rfl := hl.eq_of_loc hp.1 hq.1 heq
          exact .inl (.inr List.mem_cons_self)
        · refine .inr ⟨hno, l, hplaced, ?_⟩
          rw [hloc]
          exact lt_of_le_of_ne (hmin q hq hle) heq

theorem step_keeps {op : MarkerOp} (h : Good u tiles) (ha : Able u op)
    (hstep : markerStep u op = some v) : Keeps u v := by
  cases op with
  | data op =>
    obtain ⟨r', hr', hd⟩ := runStep_spec h.inv ha.1 ha.2
    rw [markerStep, hr', Option.map_some, Option.some_inj] at hstep
    obtain ⟨tiles', hgood⟩ := h.data hd
    rw [hstep] at hgood
    have hgrows := hd.grows
    refine keeps_of_seen hgood ?_ ?_ ?_ ?_ <;> rw [← hstep] <;> split
    · exact hgrows
    · exact hgrows
    all_goals rfl
  | read mkr =>
    obtain ⟨o, ho, hfirst⟩ := dsmRead_spec h ha
    rw [markerStep, ho, Option.map_some, Option.some_inj] at hstep
    subst hstep
    cases o with
    | none => exact keeps_of_seen h (grows_refl _) rfl rfl rfl
    | some p => exact keeps_of_seen (h.found hfirst.1.1) (grows_refl _) rfl rfl rfl
  | next =>
    obtain ⟨o, ho, hfirst⟩ := dsmRead_spec h h.marker
    rw [markerStep, ho, Option.map_some, Option.some_inj] at hstep
    rw [← hstep]
    exact keeps_next h hfirst
  | locate mkr there =>
    rw [markerStep] at hstep
    split at hstep
    · rename_i p hlocate
      cases hstep
      have hp := dsmLocate_block h hlocate
      have hgood : Good { u with cache := some ((u.run.store.mem p).loc, p) } tiles := by
        refine ⟨h.inv, h.contig, ?_, h.issued, h.fresh, h.marker⟩
        rintro l q ⟨⟩
        exact ⟨hp, rfl⟩
      exact keeps_of_seen hgood (grows_refl _) rfl rfl rfl
    · cases hstep
    · cases hstep
      exact keeps_of_seen h (grows_refl _) rfl rfl rfl

/-- Where `dsm_locate` is not led astray, every step can be taken. -/
theorem markerStep_isSome {op : MarkerOp} (h : Good u tiles) (ha : Able u op)
    (hok : LocateOk u op) : ∃ v, markerStep u op = some v := by
  cases op with
  | data op =>
    obtain ⟨r', hr', -⟩ := runStep_spec h.inv ha.1 ha.2
    rw [markerStep, hr']
    exact ⟨_, rfl⟩
  | read mkr =>
    obtain ⟨o, ho, -⟩ := dsmRead_spec h ha
    rw [markerStep, ho]
    exact ⟨_, rfl⟩
  | next =>
    obtain ⟨o, ho, -⟩ := dsmRead_spec h h.marker
    rw [markerStep, ho]
    exact ⟨_, rfl⟩
  | locate mkr there =>
    obtain ⟨-, hno⟩ := (locateRight_iff h _).mpr hok
    rw [markerStep]
    split
    · exact ⟨_, rfl⟩
    · rename_i hstray
      exact absurd hstray hno
    · exact ⟨_, rfl⟩

/-! ### Runs -/

theorem exec_keeps {ops : List MarkerOp} (h : Good u tiles) (ha : Along markerStep Able u ops)
    (hexec : exec markerStep u ops = some v) :
    (∃ tiles', Good v tiles') ∧ (Scanned u → Scanned v) ∧
      ∀ p, Along markerStep (fun w _ => Written w.run.store p) u ops → Ahead u p → Ahead v p := by
  induction ops generalizing u tiles with
  | nil =>
    cases hexec
    exact ⟨⟨tiles, h⟩, id, fun _ _ hp => hp⟩
  | cons op ops ih =>
    obtain ⟨w, hw, hrest⟩ := exec_cons_eq_some.mp hexec
    obtain ⟨⟨tiles₁, hgood⟩, hscanned, hahead⟩ := step_keeps h ha.1 hw
    obtain ⟨hgood', hscanned', hahead'⟩ := ih hgood (ha.2 w hw) hrest
    exact ⟨hgood', hscanned' ∘ hscanned,
      fun p hp hp' => hahead' p (hp.2 w hw) (hahead p hp.1 hp')⟩

theorem exec_isSome {ops : List MarkerOp} (h : Good u tiles) (ha : Along markerStep Able u ops)
    (hok : Along markerStep LocateOk u ops) : ∃ v, exec markerStep u ops = some v := by
  induction ops generalizing u tiles with
  | nil => exact ⟨u, rfl⟩
  | cons op ops ih =>
    obtain ⟨w, hw⟩ := markerStep_isSome h ha.1 hok.1
    obtain ⟨tiles₁, hgood⟩ := (step_keeps h ha.1 hw).good
    obtain ⟨v, hv⟩ := ih hgood (ha.2 w hw) (hok.2 w hw)
    exact ⟨v, exec_cons_eq_some.mpr ⟨w, hw, hv⟩⟩

theorem along_locate_iff {ops : List MarkerOp} (h : Good u tiles)
    (ha : Along markerStep Able u ops) :
    Along markerStep LocateRight u ops ↔ Along markerStep LocateOk u ops := by
  induction ops generalizing u tiles with
  | nil => exact Iff.rfl
  | cons op ops ih =>
    refine and_congr (locateRight_iff h op) (forall_congr' fun w => forall_congr' fun hw => ?_)
    obtain ⟨tiles₁, hgood⟩ := (step_keeps h ha.1 hw).good
    exact ih hgood (ha.2 w hw)

theorem buildFreelistChunk_map (mapSize n : ℕ) (s : Store) (p : Ptr) :
    (buildFreelistChunk mapSize n s p).map = s.map ∧
      (buildFreelistChunk mapSize n s p).pages = s.pages := by
  obtain ⟨freelist, hbuild⟩ := buildFreelistChunk_freelist mapSize n s p
  rw [hbuild]
  exact ⟨rfl, rfl⟩

/-- A file is one chunk. -/
theorem contig_dsmOpen (file : File) :
    Contig pageSize (dsmOpen file).bytes (dsmOpen file).map := by
  rw [dsmOpen, Store.bytes]
  by_cases hpages : 0 < file.pages
  · rw [if_pos hpages]
    obtain ⟨hmap, hpages'⟩ := buildFreelistChunk_map (file.pages * pageSize)
      (file.pages * pageSize) _ ⟨0, 0⟩
    rw [hmap, hpages', if_pos hpages]
    refine ⟨rfl, ?_⟩
    show pageSize + file.pages * pageSize = (file.pages + 1) * pageSize
    rw [Nat.add_mul, Nat.one_mul, Nat.add_comm]
  · rw [if_neg hpages, if_neg hpages]
    show pageSize = (file.pages + 1) * pageSize
    rw [Nat.eq_zero_of_not_pos hpages, Nat.zero_add, Nat.one_mul]

/-- A reader of a store that has just been created or opened. -/
theorem good_start {r : Run} (h : Start r) : ∃ tiles, Good { run := r } tiles := by
  obtain ⟨tiles, hinv⟩ := start_runInv h
  refine ⟨tiles, hinv, ?_, fun l p hc => (Option.some_ne_none _ hc.symm).elim,
    fun l hl => absurd hl List.not_mem_nil, fun _ l hl => absurd hl List.not_mem_nil,
    fun l hl => (Option.some_ne_none _ hl.symm).elim⟩
  cases h with
  | create fd =>
    show pageSize = (0 + 1) * pageSize
    rw [Nat.zero_add, Nat.one_mul]
  | opened file tiles' held hfile hnodup hheld => exact contig_dsmOpen file

theorem Good.reset (h : Good u tiles) : Good u.reset tiles :=
  ⟨h.inv, h.contig, h.cache, h.issued, h.fresh, fun _ hl => (Option.some_ne_none _ hl.symm).elim⟩

theorem scanned_reset (u : Reader) : Scanned u.reset :=
  ⟨List.Pairwise.nil, fun _ he => absurd he List.not_mem_nil, fun _ he => absurd he List.not_mem_nil⟩

/-- A scan that has come to its end has returned a record that was written all the time. -/
theorem ahead_reset {ops : List MarkerOp} (h : Good u tiles)
    (hexec : exec markerStep u.reset ops = some v) (hend : v.ended = true)
    (hp : Along markerStep (fun w _ => Written w.run.store p) u.reset ops) : Ahead u.reset p := by
  cases ops with
  | nil =>
    cases hexec
    cases hend
  | cons op ops =>
    have hl := h.reset.laid
    have hblock := hl.written_iff.mp hp.1
    exact .inr ⟨rfl, _, hl.placedAt hblock.1, Nat.zero_le _⟩

/-- **Markers.** After any history, a scan from `dsm_marker_reset` on, between whatever else is
done, returns every record that stays written once and in order, and `dsm_locate` is right,
exactly if each `dsm_locate` meets the condition. -/
theorem markers_iff (r : Run) (hstart : Start r) (history : List MarkerOp)
    (hhistory : Along markerStep Able { run := r } history) (u : Reader)
    (hu : exec markerStep { run := r } history = some u) (ops : List MarkerOp)
    (hops : Along markerStep Able u.reset ops) :
    MarkersSound u.reset ops ↔ Along markerStep LocateOk u.reset ops := by
  obtain ⟨tiles₀, hgood₀⟩ := good_start hstart
  obtain ⟨⟨tiles, hgood⟩, -, -⟩ := exec_keeps hgood₀ hhistory hu
  have hiff := along_locate_iff hgood.reset hops
  refine ⟨fun h => hiff.mp h.locate, fun hok => ⟨?_, hiff.mpr hok⟩⟩
  obtain ⟨t, ht⟩ := exec_isSome hgood.reset hops hok
  obtain ⟨-, hscanned, hahead⟩ := exec_keeps hgood.reset hops ht
  have hs := hscanned (scanned_reset u)
  refine ⟨t, ht, hs.sorted, fun hend p hp => ?_⟩
  rcases hahead p hp (ahead_reset hgood ht hend hp) with hseen | ⟨hno, -⟩
  · exact List.count_eq_one_of_mem hs.nodup hseen
  · rw [hend] at hno
    cases hno

/-- Two records are written and read. -/
def twoRecords : List MarkerOp :=
  [.data (.allocate 100), .data (.write ⟨0, 0⟩), .data (.allocate 2000), .next, .next,
    .locate (some 1024) 0]

instance (u : Reader) (op : MarkerOp) : Decidable (Able u op) :=
  match op with
  | .data op => inferInstanceAs (Decidable (Allowed u.run op ∧ OpOk u.run op))
  | .read none => isTrue fun _ hm => (Option.some_ne_none _ hm.symm).elim
  | .read (some m) => decidable_of_iff (m ∈ u.issued) ⟨fun h _ hm => Option.some_inj.mp hm ▸ h,
      fun h => h m rfl⟩
  | .next => inferInstanceAs (Decidable (u.ended = false))
  | .locate _ _ => isTrue trivial

theorem markers_iff_twoRecords :
    Along markerStep Able { run := ⟨Store.create true, []⟩ } [] ∧
      (MarkersSound ({ run := ⟨Store.create true, []⟩ } : Reader).reset twoRecords ↔
        Along markerStep LocateOk ({ run := ⟨Store.create true, []⟩ } : Reader).reset
          twoRecords) :=
  ⟨along_nil _, markers_iff ⟨Store.create true, []⟩ (.create true) [] (along_nil _) _ rfl
    twoRecords (by decide)⟩

/-- A record is read and then freed. -/
def readThenFree : List MarkerOp :=
  [.data (.allocate 100), .data (.write ⟨0, 0⟩), .next, .data (.free ⟨0, 0⟩)]

/-- The marker is still in the cache. -/
theorem not_markersSound :
    Along markerStep Able { run := ⟨Store.create true, []⟩ } (readThenFree ++ [.locate (some 1024) 0]) ∧
      ¬ MarkersSound { run := ⟨Store.create true, []⟩ } (readThenFree ++ [.locate (some 1024) 0]) := by
  refine ⟨by decide, fun h => ?_⟩
  have hstate : (exec markerStep { run := ⟨Store.create true, []⟩ } readThenFree).map
      (fun u => (dsmLocate u 0 (some 1024), (u.run.store.mem ⟨0, 0⟩).isfree))
      = some (.block ⟨0, 0⟩, true) := by
    decide
  obtain ⟨u, hu, hlocate⟩ := Option.map_eq_some_iff.mp hstate
  obtain ⟨hlocate, hfree⟩ := Prod.mk.inj hlocate
  have hright := ((along_append h.locate).2 u hu).1
  have hwritten := ((hright.1 ⟨0, 0⟩).mp hlocate).1
  rw [hwritten.2] at hfree
  cases hfree

end Dsm
