/-
The evaluation of code sets (cs_s_eval.c).

The client looks for a way to exchange characters: one side converts, or both do by way of a code
set that both support, or by way of the universal one.

* `preferred` — the order in which the ways are preferred;
* `modelLoop_match`, `modelLoop_wild` — the search for the code sets of the two sides ends at the
  first index at which either is found, or runs off the end of a list;
* `evaluation_preferred_iff` — when the choice is the preferred one.
-/
import Mathlib

namespace Codeset

/-- `rpc_cs_c_set_t`. -/
structure CSet where
  cSet : BitVec 32
  cMaxBytes : BitVec 16
deriving DecidableEq

/-- The method of a `rpc_cs_method_eval_t`. -/
inductive Method
  | noConversion
  | rmirModel
  | cmirModel
  | smirModel
  | intermediateModel
  | universalModel
deriving DecidableEq

/-- `rpc_cs_tags_eval_t` without its type handle. -/
structure Tags where
  stag : BitVec 32
  drtag : BitVec 32
  stagMaxBytes : BitVec 16
  clientTag : BitVec 32
  clientMaxBytes : BitVec 16
deriving DecidableEq

inductive Status
  | ok
  | ssNoCompatCodeset
  | registry (code : ℕ)
deriving DecidableEq

/-- `UCS2_L2`. -/
def ucs2L2 : BitVec 32 := 0x0010101

/-- What an evaluation leaves: the status, and with `ok` the method and the tags. -/
abbrev Choice := Except Status (Method × Tags)

/-! ### The evaluation

`none` is an index at or behind the end of its list. -/

/-- The loop that compares each side's first code set with those of the other side, `n` times from
`i` on; whether the client's and whether the server's was found. -/
def modelLoop (client server : List CSet) : ℕ → ℕ → Option (Bool × Bool)
  | 0, _ => some (false, false)
  | n + 1, i => do
    let smirTrue := (← client[0]?).cSet = (← server[i]?).cSet
    let cmirTrue := (← server[0]?).cSet = (← client[i]?).cSet
    if smirTrue ∨ cmirTrue then some (smirTrue, cmirTrue) else modelLoop client server n (i + 1)

/-- One of the client's code sets against those of the server, `n` times from `j` on. -/
def serverLoop (c : CSet) (server : List CSet) : ℕ → ℕ → Option Bool
  | 0, _ => some false
  | n + 1, j => do
    if c.cSet = (← server[j]?).cSet then some true else serverLoop c server n (j + 1)

/-- The search for a code set that both have, `n` times from `i` on. -/
def intermediateLoop (client server : List CSet) : ℕ → ℕ → Option (Option CSet)
  | 0, _ => some none
  | n + 1, i => do
    let c ← client[i]?
    if ← serverLoop c server server.length 1 then some (some c)
    else intermediateLoop client server n (i + 1)

/-- The choice for first code sets that differ and are compatible; `lastResort` is what is done
without an intermediate code set. -/
def chooseModel (lastResort : CSet → Choice) (c₀ s₀ : CSet) (client server : List CSet) :
    Option Choice := do
  let (smirTrue, cmirTrue) ← modelLoop client server server.length 1
  if smirTrue ∧ cmirTrue then
    some (.ok (.rmirModel, ⟨c₀.cSet, s₀.cSet, c₀.cMaxBytes, c₀.cSet, c₀.cMaxBytes⟩))
  else if smirTrue then
    some (.ok (.smirModel, ⟨c₀.cSet, c₀.cSet, c₀.cMaxBytes, c₀.cSet, c₀.cMaxBytes⟩))
  else if cmirTrue then
    some (.ok (.cmirModel, ⟨s₀.cSet, s₀.cSet, s₀.cMaxBytes, c₀.cSet, c₀.cMaxBytes⟩))
  else do
    match ← intermediateLoop client server client.length 1 with
    | some c =>
      some (.ok (.intermediateModel, ⟨c.cSet, c.cSet, c.cMaxBytes, c₀.cSet, c₀.cMaxBytes⟩))
    | none => some (lastResort c₀)

/-- The part that both evaluation routines have.  `compat` is what `rpc_cs_char_set_compat_check`
answers, and `tags` are the tags before. -/
def evaluate (lastResort : CSet → Choice) (compat : Status) (tags : Tags)
    (client server : List CSet) : Option Choice := do
  let c₀ ← client[0]?
  let s₀ ← server[0]?
  if c₀.cSet = s₀.cSet then
    some (.ok (.noConversion, { tags with stag := c₀.cSet, drtag := s₀.cSet }))
  else if compat ≠ .ok then some (.error compat)
  else chooseModel lastResort c₀ s₀ client server

/-- The universal code set; `maxBytes` is what `rpc_rgy_get_max_bytes` answers for it. -/
def universal (maxBytes : Except Status (BitVec 16)) (c₀ : CSet) : Choice :=
  match maxBytes with
  | .ok n => .ok (.universalModel, ⟨ucs2L2, ucs2L2, n, c₀.cSet, c₀.cMaxBytes⟩)
  | .error st => .error st

/-- `rpc_cs_eval_with_universal`, from where the lists of code sets are known. -/
def rpcCsEvalWithUniversal (maxBytes : Except Status (BitVec 16)) (compat : Status) (tags : Tags)
    (client server : List CSet) : Option Choice :=
  evaluate (universal maxBytes) compat tags client server

/-- `rpc_cs_eval_without_universal`, from where the lists of code sets are known. -/
def rpcCsEvalWithoutUniversal (compat : Status) (tags : Tags) (client server : List CSet) :
    Option Choice :=
  evaluate (fun _ => .error .ssNoCompatCodeset) compat tags client server

/-! ### The preference -/

/-- A list has the code set `x`. -/
def Supports (l : List CSet) (x : BitVec 32) : Prop := ∃ c ∈ l, c.cSet = x

instance (l : List CSet) (x : BitVec 32) : Decidable (Supports l x) :=
  inferInstanceAs (Decidable (∃ c ∈ l, c.cSet = x))

/-- Two lists of code sets without duplicates, the first ones of which differ. -/
structure Lists where
  c₀ : CSet
  s₀ : CSet
  cs : List CSet
  ss : List CSet
  client_nodup : ((c₀ :: cs).map CSet.cSet).Nodup
  server_nodup : ((s₀ :: ss).map CSet.cSet).Nodup
  differ : c₀.cSet ≠ s₀.cSet

namespace Lists

def client (l : Lists) : List CSet := l.c₀ :: l.cs
def server (l : Lists) : List CSet := l.s₀ :: l.ss

end Lists

/-- The receiver converts if both sides can, else the server or the client, else both by way of the
first of the client's code sets that the server has. -/
def preferred (lastResort : CSet → Choice) (l : Lists) : Choice :=
  if Supports l.server l.c₀.cSet ∧ Supports l.client l.s₀.cSet then
    .ok (.rmirModel, ⟨l.c₀.cSet, l.s₀.cSet, l.c₀.cMaxBytes, l.c₀.cSet, l.c₀.cMaxBytes⟩)
  else if Supports l.server l.c₀.cSet then
    .ok (.smirModel, ⟨l.c₀.cSet, l.c₀.cSet, l.c₀.cMaxBytes, l.c₀.cSet, l.c₀.cMaxBytes⟩)
  else if Supports l.client l.s₀.cSet then
    .ok (.cmirModel, ⟨l.s₀.cSet, l.s₀.cSet, l.s₀.cMaxBytes, l.c₀.cSet, l.c₀.cMaxBytes⟩)
  else
    match l.client.find? fun c => Supports l.server c.cSet with
    | some c => .ok (.intermediateModel, ⟨c.cSet, c.cSet, c.cMaxBytes, l.c₀.cSet, l.c₀.cMaxBytes⟩)
    | none => lastResort l.c₀

/-! ### The search -/

/-- At the index `k`, which both lists have, the client's and the server's first code set are found
or not. -/
def FoundAt (l : Lists) (k : ℕ) (smir cmir : Bool) : Prop :=
  ∃ s c, l.server[k]? = some s ∧ l.client[k]? = some c ∧
    smir = decide (l.c₀.cSet = s.cSet) ∧ cmir = decide (l.s₀.cSet = c.cSet)

variable {l : Lists}

/-- The search ends at the first index at which one of the two is found. -/
theorem modelLoop_match {k : ℕ} {smir cmir : Bool} (hk : FoundAt l k smir cmir)
    (hfound : smir = true ∨ cmir = true) : ∀ n i, i ≤ k → k < i + n →
      (∀ j, i ≤ j → j < k → FoundAt l j false false) →
      modelLoop l.client l.server n i = some (smir, cmir) := by
  intro n
  induction n with
  | zero =>
    intro i hi hlt
    omega
  | succ n ih =>
    intro i hi hlt hbefore
    rcases Nat.lt_or_eq_of_le hi with hik | rfl
    · -- nothing is found yet
      obtain ⟨s, c, hs, hc, hsmir, hcmir⟩ := hbefore i le_rfl hik
      have hne : ¬ (l.c₀.cSet = s.cSet ∨ l.s₀.cSet = c.cSet) := by
        rw [not_or]
        exact ⟨of_decide_eq_false hsmir.symm, of_decide_eq_false hcmir.symm⟩
      have hc₀ : l.client[0]? = some l.c₀ := rfl
      have hs₀ : l.server[0]? = some l.s₀ := rfl
      rw [modelLoop, hc₀, hs₀, hs, hc]
      simp only [Option.bind_eq_bind, Option.bind_some]
      rw [if_neg hne]
      exact ih (i + 1) hik (by omega) fun j hj hjk => hbefore j (by omega) hjk
    · obtain ⟨s, c, hs, hc, hsmir, hcmir⟩ := hk
      have hor : l.c₀.cSet = s.cSet ∨ l.s₀.cSet = c.cSet := by
        rw [hsmir, hcmir, decide_eq_true_iff, decide_eq_true_iff] at hfound
        exact hfound
      have hc₀ : l.client[0]? = some l.c₀ := rfl
      have hs₀ : l.server[0]? = some l.s₀ := rfl
      rw [modelLoop, hc₀, hs₀, hs, hc]
      simp only [Option.bind_eq_bind, Option.bind_some]
      rw [if_pos hor, hsmir, hcmir]

/-- If neither is found at an index of both lists, the search reads behind the end of one. -/
theorem modelLoop_wild {e : ℕ} (he : l.server[e]? = none ∨ l.client[e]? = none) :
    ∀ n i, i ≤ e → e < i + n → (∀ j, i ≤ j → j < e → FoundAt l j false false) →
      modelLoop l.client l.server n i = none := by
  intro n
  induction n with
  | zero =>
    intro i hi hlt
    omega
  | succ n ih =>
    intro i hi hlt hbefore
    have hc₀ : l.client[0]? = some l.c₀ := rfl
    have hs₀ : l.server[0]? = some l.s₀ := rfl
    rw [modelLoop, hc₀, hs₀]
    rcases Nat.lt_or_eq_of_le hi with hie | rfl
    · obtain ⟨s, c, hs, hc, hsmir, hcmir⟩ := hbefore i le_rfl hie
      have hne : ¬ (l.c₀.cSet = s.cSet ∨ l.s₀.cSet = c.cSet) := by
        rw [not_or]
        exact ⟨of_decide_eq_false hsmir.symm, of_decide_eq_false hcmir.symm⟩
      rw [hs, hc]
      simp only [Option.bind_eq_bind, Option.bind_some]
      rw [if_neg hne]
      exact ih (i + 1) hie (by omega) fun j hj hjk => hbefore j (by omega) hjk
    · rcases he with he | he
      · rw [he]
        rfl
      · rw [he]
        cases l.server[i]? with
        | none => rfl
        | some s => rfl

/-- An index of both lists at which one of the two is found, the first such. -/
def FirstFound (l : Lists) (k : ℕ) (smir cmir : Bool) : Prop :=
  1 ≤ k ∧ FoundAt l k smir cmir ∧ (smir = true ∨ cmir = true) ∧
    ∀ j, 1 ≤ j → j < k → FoundAt l j false false

theorem foundAt_of_lt {k : ℕ} (hs : k < l.server.length) (hc : k < l.client.length) :
    ∃ smir cmir, FoundAt l k smir cmir :=
  ⟨_, _, _, _, List.getElem?_eq_getElem hs, List.getElem?_eq_getElem hc, rfl, rfl⟩

theorem FoundAt.lt {k : ℕ} {smir cmir : Bool} (h : FoundAt l k smir cmir) :
    k < l.server.length ∧ k < l.client.length := by
  obtain ⟨s, c, hs, hc, -, -⟩ := h
  exact ⟨(List.getElem?_eq_some_iff.mp hs).1, (List.getElem?_eq_some_iff.mp hc).1⟩

theorem FoundAt.unique {k : ℕ} {smir cmir smir' cmir' : Bool} (h : FoundAt l k smir cmir)
    (h' : FoundAt l k smir' cmir') : smir = smir' ∧ cmir = cmir' := by
  obtain ⟨s, c, hs, hc, rfl, rfl⟩ := h
  obtain ⟨s', c', hs', hc', rfl, rfl⟩ := h'
  rw [hs, Option.some_inj] at hs'
  rw [hc, Option.some_inj] at hc'
  rw [hs', hc']
  exact ⟨rfl, rfl⟩

/-- Something is found at the index `k`. -/
def Hit (l : Lists) (k : ℕ) : Prop :=
  1 ≤ k ∧ ∃ smir cmir, FoundAt l k smir cmir ∧ (smir = true ∨ cmir = true)

theorem foundAt_of_not_hit {k : ℕ} (h1 : 1 ≤ k) (hs : k < l.server.length)
    (hc : k < l.client.length) (h : ¬ Hit l k) : FoundAt l k false false := by
  obtain ⟨smir, cmir, hfound⟩ := foundAt_of_lt hs hc
  cases smir with
  | true => exact absurd ⟨h1, _, _, hfound, .inl rfl⟩ h
  | false =>
    cases cmir with
    | true => exact absurd ⟨h1, _, _, hfound, .inr rfl⟩ h
    | false => exact hfound

/-- Either the search has found something at an index of both lists, or there is no such index and
it reads what is not there. -/
theorem modelLoop_cases (l : Lists) :
    (∃ k smir cmir, FirstFound l k smir cmir ∧
      modelLoop l.client l.server l.server.length 1 = some (smir, cmir)) ∨
    (∀ k, ¬ Hit l k) ∧ modelLoop l.client l.server l.server.length 1 = none := by
  classical
  by_cases hex : ∃ k, Hit l k
  · -- the least such index
    obtain ⟨h1, smir, cmir, hfound, hor⟩ := Nat.find_spec hex
    obtain ⟨hs, hc⟩ := hfound.lt
    have hbefore : ∀ j, 1 ≤ j → j < Nat.find hex → FoundAt l j false false := fun j hj hlt =>
      foundAt_of_not_hit hj (hlt.trans hs) (hlt.trans hc) (Nat.find_min hex hlt)
    exact .inl ⟨_, smir, cmir, ⟨h1, hfound, hor, hbefore⟩,
      modelLoop_match hfound hor _ 1 h1 (by omega) hbefore⟩
  · rw [not_exists] at hex
    have hs : 0 < l.server.length := Nat.succ_pos _
    have hc : 0 < l.client.length := Nat.succ_pos _
    refine .inr ⟨hex, ?_⟩
    refine modelLoop_wild (e := min l.server.length l.client.length) ?_ _ 1 (by omega) (by omega) ?_
    · rcases Nat.le_total l.server.length l.client.length with hle | hle
      · rw [Nat.min_eq_left hle]
        exact .inl (List.getElem?_eq_none le_rfl)
      · rw [Nat.min_eq_right hle]
        exact .inr (List.getElem?_eq_none le_rfl)
    · intro j hj hlt
      exact foundAt_of_not_hit hj (by omega) (by omega) (hex j)

/-! ### What is in the lists -/

theorem FoundAt.smir_supports {k : ℕ} {cmir : Bool} (h : FoundAt l k true cmir) :
    Supports l.server l.c₀.cSet := by
  obtain ⟨s, c, hs, -, hsmir, -⟩ := h
  exact ⟨s, List.mem_of_getElem? hs, (of_decide_eq_true hsmir.symm).symm⟩

theorem FoundAt.cmir_supports {k : ℕ} {smir : Bool} (h : FoundAt l k smir true) :
    Supports l.client l.s₀.cSet := by
  obtain ⟨s, c, -, hc, -, hcmir⟩ := h
  exact ⟨c, List.mem_of_getElem? hc, (of_decide_eq_true hcmir.symm).symm⟩

/-- A code set is at one index only. -/
theorem index_unique {sets : List CSet} (hnodup : (sets.map CSet.cSet).Nodup) {i j : ℕ} {a b : CSet}
    (ha : sets[i]? = some a) (hb : sets[j]? = some b) (hab : a.cSet = b.cSet) : i = j := by
  have hlt : i < (sets.map CSet.cSet).length := by
    rw [List.length_map]
    exact (List.getElem?_eq_some_iff.mp ha).1
  refine (List.getElem?_inj hlt hnodup).mp ?_
  rw [List.getElem?_map, List.getElem?_map, ha, hb, Option.map_some, Option.map_some, hab]

theorem FoundAt.index_eq {i j : ℕ} {smir cmir : Bool} (h : FoundAt l i true true)
    (h' : FoundAt l j smir cmir) (hor : smir = true ∨ cmir = true) : i = j := by
  obtain ⟨s, c, hs, hc, hsmir, hcmir⟩ := h
  obtain ⟨s', c', hs', hc', rfl, rfl⟩ := h'
  have hse := of_decide_eq_true hsmir.symm
  have hce := of_decide_eq_true hcmir.symm
  rcases hor with hor | hor
  · exact index_unique l.server_nodup hs hs' (hse.symm.trans (of_decide_eq_true hor))
  · exact index_unique l.client_nodup hc hc' (hce.symm.trans (of_decide_eq_true hor))

/-- Both are found at one index; or only one is in the other's list, at an index that both lists
have. -/
def SeenInTime (l : Lists) : Prop :=
  (∃ k, 1 ≤ k ∧ FoundAt l k true true) ∨
  (¬ Supports l.client l.s₀.cSet ∧ ∃ k, 1 ≤ k ∧ FoundAt l k true false) ∨
  (¬ Supports l.server l.c₀.cSet ∧ ∃ k, 1 ≤ k ∧ FoundAt l k false true)

/-- The search ends with what is in the lists if and only if it sees it in time. -/
theorem seenInTime_iff {k : ℕ} {smir cmir : Bool} (h : FirstFound l k smir cmir) :
    SeenInTime l ↔
      (smir = true ↔ Supports l.server l.c₀.cSet) ∧ (cmir = true ↔ Supports l.client l.s₀.cSet) := by
  obtain ⟨h1, hfound, hor, -⟩ := h
  constructor
  · rintro (⟨j, -, hj⟩ | ⟨hnot, j, -, hj⟩ | ⟨hnot, j, -, hj⟩)
    · obtain rfl := hj.index_eq hfound hor
      obtain ⟨rfl, rfl⟩ := hj.unique hfound
      exact ⟨iff_of_true rfl hfound.smir_supports, iff_of_true rfl hfound.cmir_supports⟩
    · cases cmir with
      | true => exact absurd hfound.cmir_supports hnot
      | false =>
        obtain rfl := hor.resolve_right Bool.false_ne_true
        exact ⟨iff_of_true rfl hfound.smir_supports, iff_of_false Bool.false_ne_true hnot⟩
    · cases smir with
      | true => exact absurd hfound.smir_supports hnot
      | false =>
        obtain rfl := hor.resolve_left Bool.false_ne_true
        exact ⟨iff_of_false Bool.false_ne_true hnot, iff_of_true rfl hfound.cmir_supports⟩
  · rintro ⟨hsmir, hcmir⟩
    cases smir with
    | true =>
      cases cmir with
      | true => exact .inl ⟨k, h1, hfound⟩
      | false => exact .inr (.inl ⟨fun h => Bool.false_ne_true (hcmir.mpr h), k, h1, hfound⟩)
    | false =>
      obtain rfl := hor.resolve_left Bool.false_ne_true
      exact .inr (.inr ⟨fun h => Bool.false_ne_true (hsmir.mpr h), k, h1, hfound⟩)

theorem SeenInTime.hit (h : SeenInTime l) : ∃ k, Hit l k := by
  rcases h with ⟨k, h1, hk⟩ | ⟨-, k, h1, hk⟩ | ⟨-, k, h1, hk⟩
  · exact ⟨k, h1, _, _, hk, .inl rfl⟩
  · exact ⟨k, h1, _, _, hk, .inl rfl⟩
  · exact ⟨k, h1, _, _, hk, .inr rfl⟩

/-! ### The choice -/

theorem evaluate_eq (lastResort : CSet → Choice) (tags : Tags) (l : Lists) :
    evaluate lastResort .ok tags l.client l.server =
      chooseModel lastResort l.c₀ l.s₀ l.client l.server := by
  have hc₀ : l.client[0]? = some l.c₀ := rfl
  have hs₀ : l.server[0]? = some l.s₀ := rfl
  rw [evaluate, hc₀, hs₀]
  simp only [Option.bind_eq_bind, Option.bind_some, l.differ, if_false, ne_eq, not_true]

theorem evaluate_preferred_iff (lastResort : CSet → Choice) (tags : Tags) (l : Lists) :
    evaluate lastResort .ok tags l.client l.server = some (preferred lastResort l) ↔
      SeenInTime l := by
  rw [evaluate_eq, chooseModel]
  rcases modelLoop_cases l with ⟨k, smir, cmir, hfirst, hloop⟩ | ⟨hnone, hloop⟩
  · rw [hloop, seenInTime_iff hfirst]
    obtain ⟨-, hfound, hor, -⟩ := hfirst
    simp only [Option.bind_eq_bind, Option.bind_some, preferred]
    cases smir with
    | true =>
      have hs := hfound.smir_supports
      cases cmir with
      | true => simp [hs, hfound.cmir_supports]
      | false =>
        -- the server's first may be in the client's list, at another index
        by_cases hc : Supports l.client l.s₀.cSet
        · simp [hs, hc]
        · simp [hs, hc]
    | false =>
      obtain rfl := hor.resolve_left Bool.false_ne_true
      have hc := hfound.cmir_supports
      by_cases hs : Supports l.server l.c₀.cSet
      · simp [hs, hc]
      · simp [hs, hc]
  · rw [hloop]
    refine iff_of_false (by simp) fun h => ?_
    obtain ⟨k, hk⟩ := h.hit
    exact hnone k hk

/-- **The choice is the preferred one**, without a read behind a list, if and only if what is
preferred is seen in time. -/
theorem evaluation_preferred_iff (l : Lists) (tags : Tags)
    (maxBytes : Except Status (BitVec 16)) :
    (rpcCsEvalWithUniversal maxBytes .ok tags l.client l.server =
        some (preferred (universal maxBytes) l) ↔ SeenInTime l) ∧
    (rpcCsEvalWithoutUniversal .ok tags l.client l.server =
        some (preferred (fun _ => .error .ssNoCompatCodeset) l) ↔ SeenInTime l) :=
  ⟨evaluate_preferred_iff _ tags l, evaluate_preferred_iff _ tags l⟩

/-- The client has 1, 2, 3 and the server 3, 1: each supports the other's first code set. -/
def crossed : Lists where
  c₀ := ⟨1, 1⟩
  s₀ := ⟨3, 1⟩
  cs := [⟨2, 1⟩, ⟨3, 1⟩]
  ss := [⟨1, 1⟩]
  client_nodup := by decide
  server_nodup := by decide
  differ := by decide

/-- Disjoint lists. -/
def disjointLists : Lists where
  c₀ := ⟨1, 1⟩
  s₀ := ⟨3, 1⟩
  cs := []
  ss := []
  client_nodup := by decide
  server_nodup := by decide
  differ := by decide

/-- The second match is not noticed, and without one the search runs off the lists. -/
theorem second_match_unnoticed :
    rpcCsEvalWithUniversal (.ok 2) .ok ⟨0, 0, 0, 0, 0⟩ crossed.client crossed.server =
      some (.ok (.smirModel, ⟨1, 1, 1, 1, 1⟩)) ∧
    preferred (universal (.ok 2)) crossed = .ok (.rmirModel, ⟨1, 3, 1, 1, 1⟩) ∧
    rpcCsEvalWithoutUniversal .ok ⟨0, 0, 0, 0, 0⟩ disjointLists.client disjointLists.server =
      none := by
  refine ⟨by decide, by decide, by decide⟩

end Codeset
