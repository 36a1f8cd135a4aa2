/-
The hash table of server connections (`rpc_g_dg_sct`, dgsct.c), for all activities.

A look-up starts with the chain that the packet's hint names and falls back on the chain of the
activity's hash.  A new connection is put into the chain that its look-up started with, so one that
was made with another hint than the hash is out of reach for look-ups with a third hint, or with
none.

* `Placed` — a packet that makes a connection puts it into the chain of its activity's hash;
* `oneEntry_iff` — the states of a run have one entry for each activity, found with every hint, if
  and only if all connections are made so.
-/
import FreeDce.Dg.Sct
import FreeDce.Lib.Runs

namespace Dg

namespace Table

open Runs

/-! ### The table -/

/-- A UUID, as the four words that are hashed. -/
structure Actid where
  w₀ : BitVec 32
  w₁ : BitVec 32
  w₂ : BitVec 32
  w₃ : BitVec 32
deriving DecidableEq

/-- `rpc__dg_uuid_hash`. -/
def uuidHash (actid : Actid) : BitVec 16 :=
  let hash := actid.w₀ ^^^ actid.w₁ ^^^ actid.w₂ ^^^ actid.w₃
  ((hash >>> 16) ^^^ hash).setWidth 16

/-- `rpc_dg_sct_elt_t`, as far as the table goes.  `monitored` says that its client handle has
a rundown routine. -/
structure Entry where
  actid : Actid
  ahint : ℕ
  highSeq : BitVec 32
  refcnt : ℕ
  timestamp : ℕ
  monitored : Bool

/-- The chains and the number of entries, which says whether the monitor routine is in the timer
queue. -/
structure Sct where
  chain : ℕ → List Entry
  numSctEntries : ℕ
  timerSet : Bool

def Sct.init : Sct := ⟨fun _ => [], 0, false⟩

/-- `rpc_g_dg_sct_timeout`. -/
def sctTimeout : ℕ := 600

/-- The chain of an activity's hash. -/
def hashChain (actid : Actid) : ℕ := (uuidHash actid).toNat % sctSize

/-- The chain to start with. -/
def probeChain (actid : Actid) (probeHint : ℕ) : ℕ :=
  if probeHint = noHint ∨ sctSize ≤ probeHint then hashChain actid else probeHint

/-- The scan of a chain. -/
def scan (t : Sct) (actid : Actid) (probe : ℕ) : Option Entry :=
  (t.chain probe).find? fun scte => scte.actid = actid

/-- `rpc__dg_sct_lookup`, without the reference to the entry that it finds. -/
def lookup (t : Sct) (actid : Actid) (probeHint : ℕ) : Option Entry :=
  let probe := probeChain actid probeHint
  match scan t actid probe with
  | some scte => some scte
  | none =>
    if probe = probeHint ∧ hashChain actid ≠ probeHint then scan t actid (hashChain actid) else none

/-- `rpc__dg_sct_get`.  A new entry has the reference of the table and that of the caller. -/
def get (t : Sct) (actid : Actid) (probeHint : ℕ) (seq : BitVec 32) (clock : ℕ) : Sct × Entry :=
  let probe := probeChain actid probeHint
  match lookup t actid probe with
  | some scte => (t, scte)
  | none =>
    let scte : Entry :=
      { actid := actid, ahint := probe, highSeq := seq - 1, refcnt := 2, timestamp := clock,
        monitored := false }
    ({ chain := Function.update t.chain probe (scte :: t.chain probe)
       numSctEntries := t.numSctEntries + 1
       timerSet := t.timerSet || t.numSctEntries + 1 = 1 }, scte)

/-- An entry that only the table refers to, that is not monitored and that was not used for long. -/
def Entry.expired (clock : ℕ) (scte : Entry) : Bool :=
  scte.refcnt = 1 && !scte.monitored && scte.timestamp + sctTimeout ≤ clock

/-- The scan of one chain in `rpc__dg_sct_timer`: the entries that stay, and how many go. -/
def timerChain (clock : ℕ) : List Entry → List Entry × ℕ
  | [] => ([], 0)
  | scte :: rest =>
    let (kept, freed) := timerChain clock rest
    if scte.expired clock then (kept, freed + 1) else (scte :: kept, freed)

/-- `rpc__dg_sct_timer`. -/
def timer (t : Sct) (clock : ℕ) : Sct :=
  let freed := ((List.range sctSize).map fun i => (timerChain clock (t.chain i)).2).sum
  { chain := fun i => (timerChain clock (t.chain i)).1
    numSctEntries := t.numSctEntries - freed
    timerSet := t.timerSet && t.numSctEntries - freed ≠ 0 }

/-- What the holders of references do to an entry: its place and its activity stay. -/
structure Use where
  highSeq : BitVec 32
  refcnt : ℕ
  timestamp : ℕ
  monitored : Bool

def Entry.use (scte : Entry) (u : Use) : Entry :=
  { scte with
    highSeq := u.highSeq, refcnt := u.refcnt, timestamp := u.timestamp, monitored := u.monitored }

/-- Requests get their connection; pings, acks, quits and facks look it up.  What is then done
with the entries found, by packets and calls, is the third operation. -/
inductive Op
  | request (actid : Actid) (ahint : BitVec 16) (seq : BitVec 32) (clock : ℕ)
  | lookup (actid : Actid) (ahint : BitVec 16)
  | use (chain n : ℕ) (u : Use)
  | timer (clock : ℕ)

def step (t : Sct) : Op → Option Sct
  | .request actid ahint seq clock => some (get t actid ahint.toNat seq clock).1
  | .lookup _ _ => some t
  | .use i n u => some { t with
      chain := Function.update t.chain i ((t.chain i).modify n fun scte => scte.use u) }
  | .timer clock => some (timer t clock)

/-! ### One entry for each activity -/

/-- No two entries have one activity, and an entry is found whatever the hint. -/
structure OneEntry (t : Sct) : Prop where
  nodup : ∀ i < sctSize, ((t.chain i).map Entry.actid).Nodup
  apart : ∀ i < sctSize, ∀ j < sctSize, ∀ x ∈ t.chain i, ∀ y ∈ t.chain j, x.actid = y.actid → i = j
  found : ∀ i < sctSize, ∀ scte ∈ t.chain i, ∀ probeHint,
    lookup t scte.actid probeHint = some scte ∧
      ∀ seq clock, get t scte.actid probeHint seq clock = (t, scte)

/-- A request that makes an entry has no hint, or that of its activity's hash. -/
def Placed (t : Sct) : Op → Prop
  | .request actid ahint _ _ =>
    (∃ i < sctSize, ∃ scte ∈ t.chain i, scte.actid = actid) ∨
      probeChain actid ahint.toNat = hashChain actid
  | .lookup _ _ => True
  | .use _ _ _ => True
  | .timer _ => True

instance (t : Sct) : (op : Op) → Decidable (Placed t op)
  | .request actid _ _ _ => inferInstanceAs (Decidable
      ((∃ i < sctSize, ∃ scte ∈ t.chain i, scte.actid = actid) ∨ _))
  | .lookup _ _ => .isTrue trivial
  | .use _ _ _ => .isTrue trivial
  | .timer _ => .isTrue trivial

/-- Each entry is in the chain of its hash, once. -/
structure InPlace (t : Sct) : Prop where
  nodup : ∀ i < sctSize, ((t.chain i).map Entry.actid).Nodup
  hash : ∀ i < sctSize, ∀ scte ∈ t.chain i, hashChain scte.actid = i

variable {t t' : Sct} {actid : Actid} {i probeHint : ℕ} {scte : Entry} {op : Op}

theorem sctSize_pos : 0 < sctSize := by decide

theorem hashChain_lt (actid : Actid) : hashChain actid < sctSize := Nat.mod_lt _ sctSize_pos

theorem probeChain_lt (actid : Actid) (probeHint : ℕ) : probeChain actid probeHint < sctSize := by
  rw [probeChain]
  split
  · exact hashChain_lt actid
  · omega

theorem probeChain_noHint (actid : Actid) : probeChain actid noHint = hashChain actid :=
  if_pos (Or.inl rfl)

theorem probeChain_self (h : probeHint < sctSize) : probeChain actid probeHint = probeHint := by
  have hsize : sctSize < noHint := by decide
  rw [probeChain, if_neg]
  omega

theorem scan_mem (h : scan t actid i = some scte) : scte ∈ t.chain i ∧ scte.actid = actid :=
  ⟨List.mem_of_find?_eq_some h, by simpa using List.find?_some h⟩

theorem scan_none (h : scan t actid i = none) (hmem : scte ∈ t.chain i) : scte.actid ≠ actid := by
  intro heq
  have := List.find?_eq_none.mp h scte hmem
  simp [heq] at this

/-- The entry in the chain of the hash is the one that is found there. -/
theorem scan_eq (h : ((t.chain i).map Entry.actid).Nodup) (hmem : scte ∈ t.chain i) :
    scan t scte.actid i = some scte := by
  cases hscan : scan t scte.actid i with
  | none => exact absurd rfl (scan_none hscan hmem)
  | some x =>
    obtain ⟨hx, heq⟩ := scan_mem hscan
    exact congrArg some (List.inj_on_of_nodup_map h hx hmem heq)

/-- What a look-up finds is in the chain of the probe or in that of the hash. -/
theorem lookup_mem (h : lookup t actid probeHint = some scte) :
    ∃ i < sctSize, scte ∈ t.chain i ∧ scte.actid = actid := by
  rw [lookup] at h
  split at h
  · next x hx =>
    cases h
    exact ⟨_, probeChain_lt actid probeHint, scan_mem hx⟩
  · split at h
    · exact ⟨_, hashChain_lt actid, scan_mem h⟩
    · cases h

theorem InPlace.scan_none (h : InPlace t) (hi : i < sctSize) (hne : i ≠ hashChain actid) :
    scan t actid i = none := by
  refine List.find?_eq_none.mpr ?_
  intro x hx heq
  rw [decide_eq_true_eq] at heq
  have hhash := h.hash i hi x hx
  rw [heq] at hhash
  exact hne hhash.symm

/-- With the entries in their chains the hint does not matter. -/
theorem InPlace.lookup_eq (h : InPlace t) (actid : Actid) (probeHint : ℕ) :
    lookup t actid probeHint = scan t actid (hashChain actid) := by
  rw [lookup]
  by_cases hprobe : probeChain actid probeHint = hashChain actid
  · rw [hprobe]
    cases hscan : scan t actid (hashChain actid) with
    | none =>
      dsimp only
      rw [if_neg fun hc => hc.2 hc.1]
    | some x => rfl
  · have hself : probeChain actid probeHint = probeHint := by
      rw [probeChain] at hprobe ⊢
      split at hprobe
      · exact absurd rfl hprobe
      · rename_i hc
        exact if_neg hc
    rw [h.scan_none (probeChain_lt actid probeHint) hprobe]
    dsimp only
    rw [if_pos ⟨hself, fun heq => hprobe (hself.trans heq.symm)⟩]

theorem InPlace.oneEntry (h : InPlace t) : OneEntry t where
  nodup := h.nodup
  apart i hi j hj x hx y hy heq := by
    rw [← h.hash i hi x hx, ← h.hash j hj y hy, heq]
  found i hi scte hmem probeHint := by
    have hscan : scan t scte.actid (hashChain scte.actid) = some scte := by
      rw [h.hash i hi scte hmem]
      exact scan_eq (h.nodup i hi) hmem
    refine ⟨(h.lookup_eq scte.actid probeHint).trans hscan, fun seq clock => ?_⟩
    rw [get]
    dsimp only
    rw [h.lookup_eq, hscan]

/-! ### The operations -/

theorem timerChain_sublist (clock : ℕ) (l : List Entry) : (timerChain clock l).1.Sublist l := by
  induction l with
  | nil => exact List.Sublist.refl _
  | cons x l ih =>
    rw [timerChain]
    dsimp only
    split
    · exact ih.cons x
    · exact ih.cons_cons x

theorem InPlace.timer (h : InPlace t) (clock : ℕ) : InPlace (timer t clock) where
  nodup i hi := (h.nodup i hi).sublist ((timerChain_sublist clock (t.chain i)).map Entry.actid)
  hash i hi scte hmem := h.hash i hi scte ((timerChain_sublist clock (t.chain i)).subset hmem)

theorem map_actid_modify (l : List Entry) (n : ℕ) (u : Use) :
    (l.modify n fun scte => scte.use u).map Entry.actid = l.map Entry.actid := by
  refine List.ext_getElem? fun k => ?_
  rw [List.getElem?_map, List.getElem?_map, List.getElem?_modify]
  cases hk : l[k]? with
  | none => rfl
  | some x =>
    show some _ = some _
    split <;> rfl

theorem InPlace.use (h : InPlace t) (i n : ℕ) (u : Use) :
    InPlace { t with chain := Function.update t.chain i ((t.chain i).modify n fun e => e.use u) } := by
  have hmap : ∀ j, (Function.update t.chain i ((t.chain i).modify n fun e => e.use u) j).map Entry.actid
      = (t.chain j).map Entry.actid := by
    intro j
    by_cases hj : j = i
    · rw [hj, Function.update_self, map_actid_modify]
    · rw [Function.update_of_ne hj]
  constructor
  · intro j hj
    show ((Function.update t.chain i _ j).map Entry.actid).Nodup
    rw [hmap]
    exact h.nodup j hj
  · intro j hj scte hmem
    have hactid : scte.actid ∈ (t.chain j).map Entry.actid := by
      rw [← hmap]
      exact List.mem_map_of_mem hmem
    obtain ⟨x, hx, heq⟩ := List.mem_map.mp hactid
    rw [← heq]
    exact h.hash j hj x hx

/-- The entry that a request makes. -/
theorem get_new {ahint : BitVec 16} (seq : BitVec 32) (clock : ℕ)
    (h : lookup t actid (probeChain actid ahint.toNat) = none) :
    ∃ scte, scte.actid = actid ∧ get t actid ahint.toNat seq clock
      = ({ chain := Function.update t.chain (probeChain actid ahint.toNat)
             (scte :: t.chain (probeChain actid ahint.toNat))
           numSctEntries := t.numSctEntries + 1
           timerSet := t.timerSet || t.numSctEntries + 1 = 1 }, scte) := by
  rw [get]
  dsimp only
  rw [h]
  exact ⟨_, rfl, rfl⟩

/-- A request keeps the entries in place, and finds every entry with every hint, exactly if it is
placed. -/
theorem InPlace.request (h : InPlace t) (actid : Actid) (ahint : BitVec 16) (seq : BitVec 32)
    (clock : ℕ) :
    (Placed t (.request actid ahint seq clock) → InPlace (get t actid ahint.toNat seq clock).1) ∧
      (OneEntry (get t actid ahint.toNat seq clock).1 ↔
        Placed t (.request actid ahint seq clock)) := by
  set probe := probeChain actid ahint.toNat with hprobe
  cases hlookup : lookup t actid probe with
  | some scte =>
    obtain ⟨i, hi, hmem, hactid⟩ := lookup_mem hlookup
    have hget : (get t actid ahint.toNat seq clock).1 = t := by
      rw [get]
      dsimp only
      rw [hlookup]
    rw [hget]
    exact ⟨fun _ => h, iff_of_true h.oneEntry (Or.inl ⟨i, hi, scte, hmem, hactid⟩)⟩
  | none =>
    obtain ⟨scte, hactid, hget⟩ := get_new seq clock hlookup
    rw [hget]
    have hnone := (h.lookup_eq actid probe).symm.trans hlookup
    have hfresh : ∀ i < sctSize, ∀ x ∈ t.chain i, x.actid ≠ actid := by
      intro i hi x hx heq
      have hhash := h.hash i hi x hx
      rw [heq] at hhash
      rw [← hhash] at hx
      exact Table.scan_none hnone hx heq
    have hkeep : probe = hashChain actid → InPlace
        { chain := Function.update t.chain probe (scte :: t.chain probe)
          numSctEntries := t.numSctEntries + 1
          timerSet := t.timerSet || t.numSctEntries + 1 = 1 } := by
      intro heq
      constructor
      · intro i hi
        show ((Function.update t.chain probe (scte :: t.chain probe) i).map Entry.actid).Nodup
        by_cases hip : i = probe
        · rw [hip, Function.update_self, List.map_cons, List.nodup_cons]
          refine ⟨fun hmem => ?_, h.nodup probe (hip ▸ hi)⟩
          obtain ⟨x, hx, hxa⟩ := List.mem_map.mp hmem
          exact hfresh probe (hip ▸ hi) x hx (hxa.trans hactid)
        · rw [Function.update_of_ne hip]
          exact h.nodup i hi
      · intro i hi x hx
        replace hx : x ∈ Function.update t.chain probe (scte :: t.chain probe) i := hx
        by_cases hip : i = probe
        · rw [hip, Function.update_self] at hx
          rcases List.mem_cons.mp hx with rfl | hx
          · rw [hactid, hip, heq]
          · exact (h.hash probe (hip ▸ hi) x hx).trans hip.symm
        · rw [Function.update_of_ne hip] at hx
          exact h.hash i hi x hx
    have hiff : Placed t (.request actid ahint seq clock) ↔ probe = hashChain actid := by
      refine ⟨fun hp => hp.resolve_left ?_, Or.inr⟩
      rintro ⟨i, hi, x, hx, hxa⟩
      exact hfresh i hi x hx hxa
    rw [hiff]
    refine ⟨hkeep, fun hone => ?_, fun heq => (hkeep heq).oneEntry⟩
    -- without a hint only the chain of the hash is scanned
    by_contra hne
    have hmem : scte ∈ Function.update t.chain probe (scte :: t.chain probe) probe := by
      rw [Function.update_self]
      exact List.mem_cons_self
    have hfound := (hone.found probe (probeChain_lt actid _) scte hmem noHint).1
    obtain ⟨hmem', -⟩ : scte ∈ t.chain (hashChain actid) ∧ scte.actid = actid := by
      refine scan_mem ?_
      rw [lookup, hactid, probeChain_noHint] at hfound
      dsimp only at hfound
      have hsame : ∀ chain' : Sct, chain'.chain (hashChain actid) = t.chain (hashChain actid) →
          scan chain' actid (hashChain actid) = scan t actid (hashChain actid) := by
        intro chain' heq
        rw [scan, scan, heq]
      rw [hsame _ (Function.update_of_ne (Ne.symm hne) _ _), hnone] at hfound
      dsimp only at hfound
      rw [if_neg] at hfound
      · cases hfound
      · rintro ⟨hc, -⟩
        have hlt := hashChain_lt actid
        rw [hc] at hlt
        exact absurd hlt (by decide)
    exact hfresh _ (hashChain_lt actid) scte hmem' hactid

theorem step_oneEntry (h : InPlace t) (op : Op) :
    ∃ t', step t op = some t' ∧ (Placed t op → InPlace t') ∧ (OneEntry t' ↔ Placed t op) := by
  cases op with
  | request actid ahint seq clock => exact ⟨_, rfl, h.request actid ahint seq clock⟩
  | lookup actid ahint => exact ⟨t, rfl, fun _ => h, iff_of_true h.oneEntry trivial⟩
  | use i n u => exact ⟨_, rfl, fun _ => h.use i n u, iff_of_true (h.use i n u).oneEntry trivial⟩
  | timer clock => exact ⟨_, rfl, fun _ => h.timer clock, iff_of_true (h.timer clock).oneEntry trivial⟩

theorem inPlace_init : InPlace Sct.init where
  nodup _ _ := List.nodup_nil
  hash _ _ _ h := absurd h List.not_mem_nil

/-- All states of a run have one entry for each activity, found with every hint, if and only if
each new entry is made in the chain of its activity's hash. -/
theorem oneEntry_iff (ops : List Op) :
    (∀ n, ∃ t, exec step .init (ops.take n) = some t ∧ OneEntry t) ↔ Along step Placed .init ops :=
  forall_take_iff_along (fun _ op h => step_oneEntry h op) inPlace_init inPlace_init.oneEntry

/-- The activity with the hash 1 asks with the hint 0, and then without a hint. -/
def hintedOps : List Op :=
  [.request ⟨1, 0, 0, 0⟩ 0 5 0, .request ⟨1, 0, 0, 0⟩ 0xffff 6 1]

theorem not_oneEntry :
    ¬ ∀ ops : List Op, ∃ t, exec step .init ops = some t ∧ OneEntry t := by
  intro h
  obtain ⟨t, ht, hone⟩ := h hintedOps
  have hchains : (exec step .init hintedOps).map (fun t =>
      ((t.chain 0).map Entry.actid, (t.chain 1).map Entry.actid))
        = some ([⟨1, 0, 0, 0⟩], [⟨1, 0, 0, 0⟩]) := by decide
  rw [ht, Option.map_some, Option.some_inj, Prod.mk.injEq] at hchains
  obtain ⟨x, hx, hxa⟩ := List.mem_map.mp (hchains.1 ▸ List.mem_cons_self)
  obtain ⟨y, hy, hya⟩ := List.mem_map.mp (hchains.2 ▸ List.mem_cons_self)
  exact absurd (hone.apart 0 (by decide) 1 (by decide) x hx y hy (hxa.trans hya.symm)) (by decide)

end Table

end Dg
