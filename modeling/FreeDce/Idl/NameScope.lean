/-
The scopes of the name table of the IDL compiler (nametbl.c).

The bindings are shallow: a name has the chain of its bindings, the innermost one first, and a level
has the chain of the bindings made at it, which are undone when the level is left.

* `Holds` — what the chains are, for the bindings of each level;
* `Holds.add`, `popLoop_spec` — one more binding, and the end of a level;
* `Shows.step` — each operation is the one of a stack of scopes;
* `answers_eq_deep` — in every run the answers are those of a stack of scopes.
-/
import Mathlib

namespace Idl

namespace Nametable

variable {β : Type*}

/-! ### The routines -/

def maxLevels : ℕ := 20

/-- `NAMETABLE_binding_n_t`. -/
structure Binding (β : Type*) where
  bindingLevel : ℕ
  theBinding : β
  oldBinding : Option ℕ
  nextBindingThisLevel : Option ℕ
  boundBy : ℕ

/-- The bindings in memory, those of the names, and the level stack. -/
structure Scopes (β : Type*) where
  heap : ℕ → Option (Binding β) := fun _ => none
  allocated : ℕ := 0
  bindings : ℕ → Option ℕ := fun _ => none
  levelStack : ℕ → Option ℕ := fun _ => none
  currentLevel : ℕ := 0

/-- The end of `NAMETABLE_add_binding`: a new binding is tied in before the old one. -/
def tieIn (s : Scopes β) (id : ℕ) (binding : β) (old : Option ℕ) : Scopes β :=
  { s with
    heap := Function.update s.heap s.allocated (some
      { bindingLevel := s.currentLevel
        theBinding := binding
        oldBinding := old
        nextBindingThisLevel := s.levelStack s.currentLevel
        boundBy := id })
    allocated := s.allocated + 1
    bindings := Function.update s.bindings id (some s.allocated)
    levelStack := Function.update s.levelStack s.currentLevel (some s.allocated) }

/-- `NAMETABLE_add_binding`; `none` is an access to a binding that was freed. -/
def addBinding (s : Scopes β) (id : ℕ) (binding : β) : Option (Scopes β × Bool) :=
  match s.bindings id with
  | none => some (tieIn s id binding none, true)
  | some p => (s.heap p).map fun bindingP =>
    if bindingP.bindingLevel = s.currentLevel then (s, false)
    else (tieIn s id binding (some p), true)

/-- `NAMETABLE_lookup_binding`. -/
def lookupBinding (s : Scopes β) (id : ℕ) : Option (Option β) :=
  match s.bindings id with
  | none => some none
  | some p => (s.heap p).map fun bindingP => some bindingP.theBinding

/-- `NAMETABLE_lookup_local`. -/
def lookupLocal (s : Scopes β) (id : ℕ) : Option (Option β) :=
  match s.bindings id with
  | none => some none
  | some p => (s.heap p).map fun bindingP =>
    if bindingP.bindingLevel < s.currentLevel then none else some bindingP.theBinding

/-- `NAMETABLE_push_level`; `none` is the error, and the store behind the end of the level stack,
which the test lets through at the last level. -/
def pushLevel (s : Scopes β) : Option (Scopes β) :=
  if s.currentLevel < maxLevels then
    if s.currentLevel + 1 < maxLevels then
      some { s with
        currentLevel := s.currentLevel + 1
        levelStack := Function.update s.levelStack (s.currentLevel + 1) none }
    else none
  else none

/-- The loop of `NAMETABLE_pop_level`. -/
def popLoop : ℕ → Scopes β → Option ℕ → Option (Scopes β)
  | _, s, none => some s
  | 0, _, some _ => none
  | n + 1, s, some p =>
    (s.heap p).bind fun bp =>
      popLoop n { s with
        bindings := Function.update s.bindings bp.boundBy bp.oldBinding
        heap := Function.update s.heap p none } bp.nextBindingThisLevel

/-- `NAMETABLE_pop_level`. -/
def popLevel (s : Scopes β) : Option (Scopes β) :=
  if s.currentLevel = 0 then none
  else
    popLoop s.allocated { s with currentLevel := s.currentLevel - 1 } (s.levelStack s.currentLevel)

/-! ### A stack of scopes -/

/-- A scope has its names with what they are bound to. -/
abbrev Scope (β : Type*) := List (ℕ × β)

def deepLookup : List (Scope β) → ℕ → Option β
  | [], _ => none
  | top :: rest, id => (top.lookup id).or (deepLookup rest id)

def deepLocal : List (Scope β) → ℕ → Option β
  | [], _ => none
  | top :: _, id => top.lookup id

def deepAdd (id : ℕ) (binding : β) : List (Scope β) → List (Scope β)
  | [] => []
  | top :: rest => ((id, binding) :: top) :: rest

inductive Op (β : Type*)
  | push
  | pop
  | add (id : ℕ) (binding : β)
  | lookup (id : ℕ)
  | lookupLocal (id : ℕ)

inductive Answer (β : Type*)
  | done
  | bound (ok : Bool)
  | found (binding : Option β)

def step (s : Scopes β) : Op β → Option (Scopes β × Answer β)
  | .push => (pushLevel s).map fun s' => (s', .done)
  | .pop => (popLevel s).map fun s' => (s', .done)
  | .add id binding => (addBinding s id binding).map fun r => (r.1, .bound r.2)
  | .lookup id => (lookupBinding s id).map fun r => (s, .found r)
  | .lookupLocal id => (lookupLocal s id).map fun r => (s, .found r)

/-- What the operations are for: there are at least one scope and at most `maxLevels`. -/
def deepStep (scopes : List (Scope β)) : Op β → Option (List (Scope β) × Answer β)
  | .push => if scopes.length < maxLevels then some ([] :: scopes, .done) else none
  | .pop => if 1 < scopes.length then some (scopes.tail, .done) else none
  | .add id binding =>
    if (deepLocal scopes id).isSome then some (scopes, .bound false)
    else some (deepAdd id binding scopes, .bound true)
  | .lookup id => some (scopes, .found (deepLookup scopes id))
  | .lookupLocal id => some (scopes, .found (deepLocal scopes id))

/-- The answers to a list of operations, if none of them fails. -/
def answers {σ ι ω : Type*} (step : σ → ι → Option (σ × ω)) : σ → List ι → Option (List ω)
  | _, [] => some []
  | s, op :: ops => (step s op).bind fun r => (answers step r.1 ops).map fun as => r.2 :: as

/-- Both fail, or both succeed with the same answer and related states. -/
def Alike {σ τ ω : Type*} (R : σ → τ → Prop) : Option (σ × ω) → Option (τ × ω) → Prop :=
  Option.Rel fun r r' => R r.1 r'.1 ∧ r.2 = r'.2

theorem answers_eq {σ τ ι ω : Type*} {step : σ → ι → Option (σ × ω)}
    {step' : τ → ι → Option (τ × ω)} {R : σ → τ → Prop}
    (h : ∀ s t op, R s t → Alike R (step s op) (step' t op))
    {s : σ} {t : τ} (hR : R s t) (ops : List ι) : answers step s ops = answers step' t ops := by
  induction ops generalizing s t with
  | nil => rfl
  | cons op ops ih =>
    rw [answers, answers]
    have hop := h s t op hR
    generalize step s op = r, step' t op = r' at hop
    cases hop with
    | none => rfl
    | some hr => rw [Option.bind_some, Option.bind_some, ih hr.1, hr.2]

/-! ### The chains -/

/-- A binding with its address. -/
structure Entry (β : Type*) where
  addr : ℕ
  id : ℕ
  binding : β

/-- The head of the chain of a level. -/
def first (lv : List (Entry β)) : Option ℕ := lv.head?.map Entry.addr

def atLevel (lv : List (Entry β)) (id : ℕ) : Option (Entry β) := lv.find? fun e => e.id = id

/-- The innermost binding of a name. -/
def innermost : List (List (Entry β)) → ℕ → Option ℕ
  | [], _ => none
  | lv :: rest, id => ((atLevel lv id).map Entry.addr).or (innermost rest id)

/-- The chain of a level, with the levels outside of it. -/
def LevelOk (heap : ℕ → Option (Binding β)) (rest : List (List (Entry β))) :
    List (Entry β) → Prop
  | [] => True
  | e :: es =>
    heap e.addr = some
      { bindingLevel := rest.length
        theBinding := e.binding
        oldBinding := innermost rest e.id
        nextBindingThisLevel := first es
        boundBy := e.id } ∧ LevelOk heap rest es

def LevelsOk (heap : ℕ → Option (Binding β)) (levelStack : ℕ → Option ℕ) :
    List (List (Entry β)) → Prop
  | [] => True
  | lv :: rest => levelStack rest.length = first lv ∧ LevelOk heap rest lv ∧
    LevelsOk heap levelStack rest

/-- The bindings of each level, the innermost level first. -/
structure Holds (s : Scopes β) (levels : List (List (Entry β))) : Prop where
  level : s.currentLevel + 1 = levels.length
  chains : LevelsOk s.heap s.levelStack levels
  bindings : ∀ id, s.bindings id = innermost levels id
  nodup : (levels.flatten.map Entry.addr).Nodup
  lt : ∀ e ∈ levels.flatten, e.addr < s.allocated
  ids : ∀ lv ∈ levels, (lv.map Entry.id).Nodup

def scope (lv : List (Entry β)) : Scope β := lv.map fun e => (e.id, e.binding)

section Chains

variable {heap heap' : ℕ → Option (Binding β)} {levelStack levelStack' : ℕ → Option ℕ}
  {levels rest : List (List (Entry β))} {lv : List (Entry β)} {id p : ℕ}

theorem lookup_scope (lv : List (Entry β)) (id : ℕ) :
    (scope lv).lookup id = (atLevel lv id).map Entry.binding := by
  induction lv with
  | nil => rfl
  | cons e es ih =>
    rw [scope, List.map_cons, List.lookup_cons, atLevel, List.find?_cons]
    by_cases he : e.id = id
    · simp [he]
    · rw [show (id == e.id) = false from beq_eq_false_iff_ne.mpr (Ne.symm he), decide_eq_false he]
      exact ih

theorem LevelOk.congr (h : LevelOk heap rest lv) (heq : ∀ e ∈ lv, heap' e.addr = heap e.addr) :
    LevelOk heap' rest lv := by
  induction lv with
  | nil => trivial
  | cons e es ih =>
    refine ⟨(heq e List.mem_cons_self).trans h.1, ih h.2 fun e' he' => heq e' ?_⟩
    exact List.mem_cons_of_mem _ he'

theorem LevelsOk.congr (h : LevelsOk heap levelStack levels)
    (hheap : ∀ e ∈ levels.flatten, heap' e.addr = heap e.addr)
    (hstack : ∀ k < levels.length, levelStack' k = levelStack k) :
    LevelsOk heap' levelStack' levels := by
  induction levels with
  | nil => trivial
  | cons lv rest ih =>
    obtain ⟨hfirst, hlevel, hrest⟩ := h
    refine ⟨(hstack _ (Nat.lt_succ_self _)).trans hfirst, hlevel.congr fun e he => hheap e ?_,
      ih hrest (fun e he => hheap e ?_) fun k hk => hstack k (hk.trans (Nat.lt_succ_self _))⟩
    · exact List.mem_append_left _ he
    · exact List.mem_append_right _ he

theorem LevelOk.mem (h : LevelOk heap rest lv) {e : Entry β} (he : e ∈ lv) :
    ∃ b, heap e.addr = some b ∧ b.bindingLevel = rest.length ∧ b.theBinding = e.binding := by
  induction lv with
  | nil => cases he
  | cons e' es ih =>
    rcases List.mem_cons.mp he with rfl | he
    · exact ⟨_, h.1, rfl, rfl⟩
    · exact ih h.2 he

/-- What the innermost binding of a name says. -/
theorem innermost_some (h : LevelsOk heap levelStack levels) (hp : innermost levels id = some p) :
    ∃ b, heap p = some b ∧ deepLookup (levels.map scope) id = some b.theBinding ∧
      b.bindingLevel < levels.length ∧ deepLocal (levels.map scope) id =
        if b.bindingLevel + 1 = levels.length then some b.theBinding else none := by
  induction levels with
  | nil => cases hp
  | cons lv rest ih =>
    obtain ⟨-, hlevel, hrest⟩ := h
    rw [innermost] at hp
    rw [List.map_cons, deepLookup, deepLocal, lookup_scope, List.length_cons]
    cases hfind : atLevel lv id with
    | some e =>
      rw [hfind] at hp
      obtain rfl : e.addr = p := Option.some_inj.mp hp
      obtain ⟨b, hb, hbl, hbb⟩ := hlevel.mem (List.mem_of_find?_eq_some hfind)
      refine ⟨b, hb, ?_, by omega, ?_⟩
      · rw [hbb]
        rfl
      · rw [if_pos (by omega), hbb]
        rfl
    | none =>
      rw [hfind] at hp
      -- the name is bound at an outer level, so the local lookup finds nothing
      obtain ⟨b, hb, hlook, hlt, -⟩ := ih hrest hp
      exact ⟨b, hb, hlook, by omega, by rw [if_neg (by omega)]; rfl⟩

theorem innermost_none (hp : innermost levels id = none) :
    deepLookup (levels.map scope) id = none ∧ deepLocal (levels.map scope) id = none := by
  induction levels with
  | nil => exact ⟨rfl, rfl⟩
  | cons lv rest ih =>
    rw [innermost, Option.or_eq_none_iff, Option.map_eq_none_iff] at hp
    rw [List.map_cons, deepLookup, deepLocal, lookup_scope, hp.1]
    exact ⟨(ih hp.2).1, rfl⟩

end Chains

section Steps

variable {s : Scopes β} {levels rest : List (List (Entry β))} {lv : List (Entry β)} {id : ℕ}

theorem Holds.init : Holds ({} : Scopes β) [[]] :=
  ⟨rfl, ⟨rfl, trivial, trivial⟩, fun _ => rfl, List.nodup_nil,
    fun _ he => absurd he List.not_mem_nil,
    fun lv hlv => by rw [List.mem_singleton.mp hlv]; exact List.nodup_nil⟩

theorem Holds.push (h : Holds s levels) : Holds
    { s with
      currentLevel := s.currentLevel + 1
      levelStack := Function.update s.levelStack (s.currentLevel + 1) none } ([] :: levels) := by
  refine ⟨by rw [List.length_cons, ← h.level], ⟨?_, trivial, ?_⟩, h.bindings, h.nodup, h.lt, ?_⟩
  · rw [← h.level]
    exact Function.update_self _ _ _
  · refine h.chains.congr (fun _ _ => rfl) fun k hk => Function.update_of_ne ?_ _ _
    rw [← h.level] at hk
    exact hk.ne
  · intro lv hlv
    rcases List.mem_cons.mp hlv with rfl | hlv
    · exact List.nodup_nil
    · exact h.ids lv hlv

/-- One more binding, of a name that the level has not bound. -/
theorem Holds.add (h : Holds s (lv :: rest)) (hnone : atLevel lv id = none) (binding : β) :
    Holds (tieIn s id binding (s.bindings id)) ((⟨s.allocated, id, binding⟩ :: lv) :: rest) := by
  obtain ⟨hfirst, hlevel, hrest⟩ := h.chains
  have hcur : s.currentLevel = rest.length := Nat.succ_injective h.level
  have hold : s.bindings id = innermost rest id := by
    rw [h.bindings, innermost, hnone]
    rfl
  have hheap : ∀ e ∈ lv ++ rest.flatten, (tieIn s id binding (s.bindings id)).heap e.addr =
      s.heap e.addr := fun e he => Function.update_of_ne (h.lt e he).ne _ _
  refine ⟨h.level, ⟨?_, ⟨?_, ?_⟩, ?_⟩, fun id' => ?_, ?_, fun e he => ?_, fun lv' hlv' => ?_⟩
  · rw [← hcur]
    exact Function.update_self _ _ _
  · refine (Function.update_self _ _ _).trans ?_
    rw [hold, ← hcur, hcur, hfirst]
  · exact hlevel.congr fun e he => hheap e (List.mem_append_left _ he)
  · refine hrest.congr (fun e he => hheap e (List.mem_append_right _ he)) fun k hk => ?_
    exact Function.update_of_ne (hcur ▸ hk.ne) _ _
  · have hupdate : (tieIn s id binding (s.bindings id)).bindings id' =
        if id' = id then some s.allocated else s.bindings id' := Function.update_apply _ _ _ _
    rw [hupdate, innermost, atLevel, List.find?_cons]
    by_cases hid : id' = id
    · simp [hid]
    · rw [if_neg hid, decide_eq_false (Ne.symm hid), h.bindings]
      rfl
  · refine List.nodup_cons.mpr ⟨fun hmem => ?_, h.nodup⟩
    obtain ⟨e, he, heq⟩ := List.mem_map.mp hmem
    exact (h.lt e he).ne heq
  · rcases List.mem_cons.mp he with rfl | he
    · exact Nat.lt_succ_self _
    · exact (h.lt e he).trans (Nat.lt_succ_self _)
  · rcases List.mem_cons.mp hlv' with rfl | hlv'
    · refine List.nodup_cons.mpr ⟨fun hmem => ?_, h.ids lv List.mem_cons_self⟩
      obtain ⟨e, he, heq⟩ := List.mem_map.mp hmem
      exact List.find?_eq_none.mp hnone e he (decide_eq_true heq)
    · exact h.ids lv' (List.mem_cons_of_mem _ hlv')

/-- The bindings of a level are undone, and freed. -/
theorem popLoop_spec {n : ℕ} (hn : lv.length ≤ n) (hlevel : LevelOk s.heap rest lv)
    (hrest : LevelsOk s.heap s.levelStack rest)
    (hbind : ∀ id, s.bindings id = innermost (lv :: rest) id)
    (hnodup : ((lv ++ rest.flatten).map Entry.addr).Nodup) (hids : (lv.map Entry.id).Nodup) :
    ∃ s', popLoop n s (first lv) = some s' ∧ LevelsOk s'.heap s'.levelStack rest ∧
      (∀ id, s'.bindings id = innermost rest id) ∧ s'.allocated = s.allocated ∧
      s'.currentLevel = s.currentLevel := by
  induction lv generalizing s n with
  | nil => exact ⟨s, by cases n <;> rfl, hrest, hbind, rfl, rfl⟩
  | cons e es ih =>
    obtain ⟨hheap, htail⟩ := hlevel
    -- the level binds the name once, so the old binding is one of an outer level
    obtain ⟨hnot, hnodup⟩ := List.nodup_cons.mp hnodup
    obtain ⟨hnotId, hids⟩ := List.nodup_cons.mp hids
    obtain ⟨n, rfl⟩ : ∃ n', n = n' + 1 := ⟨n - 1, by rw [List.length_cons] at hn; omega⟩
    have hne : ∀ e' ∈ es ++ rest.flatten,
        Function.update s.heap e.addr none e'.addr = s.heap e'.addr := fun e' he' =>
      Function.update_of_ne (fun heq : e'.addr = e.addr => hnot (heq ▸ List.mem_map_of_mem he')) _ _
    obtain ⟨s', hloop, hs'⟩ := ih (n := n)
      (s := { s with
        bindings := Function.update s.bindings e.id (innermost rest e.id)
        heap := Function.update s.heap e.addr none })
      (Nat.le_of_succ_le_succ hn)
      (htail.congr fun e' he' => hne e' (List.mem_append_left _ he'))
      (hrest.congr (fun e' he' => hne e' (List.mem_append_right _ he')) fun _ _ => rfl)
      (fun id => by
        have hupdate := Function.update_apply s.bindings e.id (innermost rest e.id) id
        refine hupdate.trans ?_
        rw [hbind, innermost, innermost, atLevel, atLevel, List.find?_cons]
        by_cases hid : id = e.id
        · subst hid
          have hfind : es.find? (fun e' => decide (e'.id = e.id)) = none :=
            List.find?_eq_none.mpr fun e' he' heq =>
              hnotId (of_decide_eq_true heq ▸ List.mem_map_of_mem he')
          rw [if_pos rfl, hfind]
          rfl
        · rw [if_neg hid, decide_eq_false (Ne.symm hid)])
      hnodup hids
    refine ⟨s', ?_, hs'⟩
    rw [first, List.head?_cons, Option.map_some, popLoop, hheap, Option.bind_some]
    exact hloop

theorem Holds.pop (h : Holds s (lv :: rest)) (hne : rest ≠ []) :
    ∃ s', popLevel s = some s' ∧ Holds s' rest := by
  obtain ⟨hfirst, hlevel, hrest⟩ := h.chains
  have hcur : s.currentLevel = rest.length := Nat.succ_injective h.level
  have hpos : 0 < rest.length := List.length_pos_of_ne_nil hne
  -- the addresses of the level are different, so it is no longer than they are
  have hlen : lv.length ≤ s.allocated := by
    have hlv : (lv.map Entry.addr).Nodup := by
      have hall := h.nodup
      rw [List.flatten_cons, List.map_append] at hall
      exact (List.nodup_append.mp hall).1
    have hsub : lv.map Entry.addr ⊆ List.range s.allocated := fun a ha => by
      obtain ⟨e, he, rfl⟩ := List.mem_map.mp ha
      exact List.mem_range.mpr (h.lt e (List.mem_append_left _ he))
    have hle := (List.subperm_of_subset hlv hsub).length_le
    rwa [List.length_map, List.length_range] at hle
  obtain ⟨s', hloop, hlevels, hbind, halloc, hcur'⟩ :=
    popLoop_spec (s := { s with currentLevel := s.currentLevel - 1 }) hlen hlevel hrest h.bindings
      h.nodup (h.ids lv List.mem_cons_self)
  refine ⟨s', ?_, ?_, hlevels, hbind, ?_, fun e he => ?_, fun lv' hlv' => ?_⟩
  · rw [popLevel, if_neg (by omega), hcur, hfirst]
    exact hcur ▸ hloop
  · rw [hcur']
    show s.currentLevel - 1 + 1 = rest.length
    omega
  · have hall := h.nodup
    rw [List.flatten_cons, List.map_append] at hall
    exact (List.nodup_append.mp hall).2.1
  · rw [halloc]
    exact h.lt e (List.mem_append_right _ he)
  · exact h.ids lv' (List.mem_cons_of_mem _ hlv')

/-- The scopes are those of the levels. -/
def Shows (s : Scopes β) (scopes : List (Scope β)) : Prop :=
  ∃ levels, Holds s levels ∧ scopes = levels.map scope

theorem Holds.length (h : Holds s levels) : (levels.map scope).length = s.currentLevel + 1 := by
  rw [List.length_map, h.level]

theorem Holds.push_alike (h : Holds s levels) :
    Alike Shows (step s .push) (deepStep (levels.map scope) .push) := by
  rw [step, pushLevel, deepStep, h.length]
  by_cases hroom : s.currentLevel + 1 < maxLevels
  · rw [if_pos ((Nat.lt_succ_self _).trans hroom), if_pos hroom, if_pos hroom]
    exact .some ⟨⟨[] :: levels, h.push, rfl⟩, rfl⟩
  · rw [if_neg hroom, if_neg hroom, ite_self]
    exact .none

theorem Holds.pop_alike (h : Holds s (lv :: rest)) :
    Alike Shows (step s .pop) (deepStep ((lv :: rest).map scope) .pop) := by
  have hcur : s.currentLevel = rest.length := Nat.succ_injective h.level
  rw [step, deepStep, h.length]
  by_cases hne : rest = []
  · subst hne
    replace hcur : s.currentLevel = 0 := hcur
    rw [popLevel, if_pos hcur, if_neg (by omega)]
    exact .none
  · obtain ⟨s', hpop, hs'⟩ := h.pop hne
    have hpos : 0 < rest.length := List.length_pos_of_ne_nil hne
    rw [hpop, if_pos (by omega)]
    exact .some ⟨⟨rest, hs', rfl⟩, rfl⟩

/-- The binding is refused where the innermost one is of the same level, that is, where the
innermost scope has the name. -/
theorem Holds.add_alike (h : Holds s (lv :: rest)) (id : ℕ) (binding : β) :
    Alike Shows (step s (.add id binding))
      (deepStep ((lv :: rest).map scope) (.add id binding)) := by
  have htie : deepLocal ((lv :: rest).map scope) id = none →
      Shows (tieIn s id binding (s.bindings id)) (deepAdd id binding ((lv :: rest).map scope)) :=
    fun hnone => by
      rw [List.map_cons, deepLocal, lookup_scope, Option.map_eq_none_iff] at hnone
      exact ⟨(⟨s.allocated, id, binding⟩ :: lv) :: rest, h.add hnone binding, rfl⟩
  rw [step, addBinding, deepStep]
  cases hb : s.bindings id with
  | none =>
    have hnone := (innermost_none ((h.bindings id).symm.trans hb)).2
    rw [hnone, Option.isSome_none, if_neg Bool.false_ne_true]
    exact .some ⟨hb ▸ htie hnone, rfl⟩
  | some p =>
    obtain ⟨b, hheap, -, -, hlocal⟩ := innermost_some h.chains ((h.bindings id).symm.trans hb)
    simp only [hheap, Option.map_some]
    by_cases hsame : b.bindingLevel = s.currentLevel
    · rw [if_pos (by rw [hsame, h.level])] at hlocal
      rw [if_pos hsame, hlocal, if_pos Option.isSome_some]
      exact .some ⟨⟨lv :: rest, h, rfl⟩, rfl⟩
    · rw [if_neg (by rw [← h.level]; omega)] at hlocal
      rw [if_neg hsame, hlocal, Option.isSome_none, if_neg Bool.false_ne_true]
      exact .some ⟨hb ▸ htie hlocal, rfl⟩

theorem Holds.lookup_alike (h : Holds s levels) (id : ℕ) :
    Alike Shows (step s (.lookup id)) (deepStep (levels.map scope) (.lookup id)) := by
  rw [step, lookupBinding, deepStep]
  cases hb : s.bindings id with
  | none =>
    rw [(innermost_none ((h.bindings id).symm.trans hb)).1]
    exact .some ⟨⟨levels, h, rfl⟩, rfl⟩
  | some p =>
    obtain ⟨b, hheap, hlook, -⟩ := innermost_some h.chains ((h.bindings id).symm.trans hb)
    simp only [hheap, hlook, Option.map_some]
    exact .some ⟨⟨levels, h, rfl⟩, rfl⟩

theorem Holds.lookupLocal_alike (h : Holds s levels) (id : ℕ) :
    Alike Shows (step s (.lookupLocal id)) (deepStep (levels.map scope) (.lookupLocal id)) := by
  rw [step, lookupLocal, deepStep]
  cases hb : s.bindings id with
  | none =>
    rw [(innermost_none ((h.bindings id).symm.trans hb)).2]
    exact .some ⟨⟨levels, h, rfl⟩, rfl⟩
  | some p =>
    obtain ⟨b, hheap, -, hlt, hlocal⟩ := innermost_some h.chains ((h.bindings id).symm.trans hb)
    have hfound : (if b.bindingLevel < s.currentLevel then none else some b.theBinding) =
        if b.bindingLevel + 1 = levels.length then some b.theBinding else none := by
      rw [← h.level] at hlt ⊢
      split <;> split <;> first | rfl | omega
    simp only [hheap, hlocal, Option.map_some, hfound]
    exact .some ⟨⟨levels, h, rfl⟩, rfl⟩

/-- Each operation does what it does to the stack of scopes, or both fail. -/
theorem Shows.step {scopes : List (Scope β)} (h : Shows s scopes) (op : Op β) :
    Alike Shows (Nametable.step s op) (deepStep scopes op) := by
  obtain ⟨levels, h, rfl⟩ := h
  cases levels with
  | nil => exact absurd h.level (Nat.succ_ne_zero _)
  | cons lv rest =>
    cases op with
    | push => exact h.push_alike
    | pop => exact h.pop_alike
    | add id binding => exact h.add_alike id binding
    | lookup id => exact h.lookup_alike id
    | lookupLocal id => exact h.lookupLocal_alike id

end Steps

/-- The shallow bindings answer like a stack of scopes, and fail exactly when that has too few or
too many of them. -/
theorem answers_eq_deep (ops : List (Op β)) :
    answers step ({} : Scopes β) ops = answers deepStep [[]] ops :=
  answers_eq (fun _ _ op (h : Shows _ _) => h.step op) ⟨[[]], Holds.init, rfl⟩ ops

end Nametable

end Idl
