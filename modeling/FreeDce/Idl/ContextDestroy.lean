/-
A context is destroyed: it leaves the table and the list of its client.

* `ContextsOk.erase`, `ContextsOk.blank`, `ContextsOk.move` — the three ways an entry is taken from
  the context table;
* `lkddestCalleeContext_spec` — a context of the table is destroyed;
* `lkddestCalleeContext_absent` — a UUID that is not in the table changes nothing.
-/
import FreeDce.Idl.ContextLists

namespace Idl

namespace Ctx

open Pointers

namespace Tables

variable {t t' : Tables} {uuidHash : ℕ → Fin 256} {c x : Ref} {l₁ l₂ : List Ref}
  {lists : Ref → List Ref} {H H' : Ref → Prop} {uuid : ℕ}

/-- A UUID is in the table. -/
def Has (t : Tables) (uuid : ℕ) : Prop := ∃ x, t.Held x ∧ (t.context x).uuid = uuid

/-! ### The chains of contexts -/

theorem ContextsOk.uuid_ne (h : t.ContextsOk uuidHash) (hx : t.Held x) : (t.context x).uuid ≠ 0 := by
  cases x with
  | home slot => exact hx
  | heap n =>
    obtain ⟨slot, hmem⟩ := hx
    exact (h.hash slot _ hmem).1

theorem ContextsOk.hash_eq (h : t.ContextsOk uuidHash) {n : ℕ} {slot : Fin 256}
    (hx : .heap n ∈ t.contextChain slot) : uuidHash (t.context (.heap n)).uuid = slot :=
  (h.hash slot _ hx).2

/-- A context is in the home slot or the chain of its UUID. -/
theorem ContextsOk.held_iff (h : t.ContextsOk uuidHash) (hx : (t.context x).uuid ≠ 0) :
    t.Held x → x = .home (uuidHash (t.context x).uuid) ∨
      x ∈ t.contextChain (uuidHash (t.context x).uuid) := by
  intro hheld
  cases x with
  | home slot => exact Or.inl (congrArg Ref.home (h.hash_home slot hx).symm)
  | heap n =>
    obtain ⟨slot, hmem⟩ := hheld
    rw [h.hash_eq hmem]
    exact Or.inr hmem

theorem ContextsOk.held_of_mem (h : t.ContextsOk uuidHash) {slot : Fin 256}
    (hx : x ∈ t.contextChain slot) : t.Held x := by
  obtain ⟨-, n, -, rfl⟩ := h.heap slot x hx
  exact ⟨slot, hx⟩

/-- The contents of the tables may change, but not the UUIDs and the chains. -/
theorem ContextsOk.congr (h : t.ContextsOk uuidHash) (t' : Tables)
    (huuid : ∀ y, (t'.context y).uuid = (t.context y).uuid)
    (hchain : t'.contextChain = t.contextChain) (hfreed : t'.contextFreed = t.contextFreed)
    (hheap : t'.nextHeap = t.nextHeap) :
    t'.ContextsOk uuidHash ∧ (∀ y, t'.Held y ↔ t.Held y) ∧ ∀ u, t'.Has u ↔ t.Has u := by
  have hheld : ∀ y, t'.Held y ↔ t.Held y := by
    intro y
    cases y with
    | home slot => rw [Held, Held, huuid]
    | heap n => rw [Held, Held, hchain]
  refine ⟨?_, hheld, fun u => ?_⟩
  · constructor
    · intro slot
      rw [hfreed]
      exact h.home slot
    · intro slot y hy
      rw [hchain] at hy
      rw [hfreed, hheap]
      exact h.heap slot y hy
    · intro slot h0
      rw [huuid] at h0
      rw [hchain]
      exact h.empty slot h0
    · intro slot h0
      rw [huuid] at h0 ⊢
      exact h.hash_home slot h0
    · intro slot y hy
      rw [hchain] at hy
      rw [huuid]
      exact h.hash slot y hy
    · intro slot
      rw [hchain]
      exact h.nodup slot
    · intro y z hy hz heq
      rw [huuid, huuid] at heq
      exact h.inj y z ((hheld y).mp hy) ((hheld z).mp hz) heq
  · rw [Has, Has]
    refine exists_congr fun y => ?_
    rw [hheld, huuid]

/-- The walk along a chain. -/
theorem walkContexts_eq {l : List Ref} (hl : ∀ y ∈ l, t.contextFreed y = false) :
    t.walkContexts uuid l = some (l.find? fun y => (t.context y).uuid = uuid) := by
  induction l with
  | nil => rfl
  | cons y l ih =>
    rw [walkContexts, readContext_eq (hl y List.mem_cons_self)]
    show (if (t.context y).uuid = uuid then some (some y) else t.walkContexts uuid l) = _
    by_cases hy : (t.context y).uuid = uuid
    · rw [if_pos hy, List.find?_cons_of_pos (by simpa using hy)]
    · rw [if_neg hy, List.find?_cons_of_neg (by simpa using hy),
        ih fun z hz => hl z (List.mem_cons_of_mem _ hz)]

/-- An entry on the heap leaves its chain. -/
theorem ContextsOk.erase (h : t.ContextsOk uuidHash) (t' : Tables) {slot : Fin 256}
    (hx : x ∈ t.contextChain slot) (huuid : ∀ y, (t'.context y).uuid = (t.context y).uuid)
    (hchain : t'.contextChain = Function.update t.contextChain slot ((t.contextChain slot).erase x))
    (hfreed : t'.contextFreed = Function.update t.contextFreed x true)
    (hheap : t'.nextHeap = t.nextHeap) :
    t'.ContextsOk uuidHash ∧ (∀ y, t'.Held y ↔ t.Held y ∧ y ≠ x) ∧
      ∀ u, t'.Has u ↔ t.Has u ∧ u ≠ (t.context x).uuid := by
  obtain ⟨-, n, -, hxn⟩ := h.heap slot x hx
  have hmem : ∀ i y, y ∈ t'.contextChain i ↔ y ∈ t.contextChain i ∧ y ≠ x := by
    intro i y
    rw [hchain]
    by_cases hi : i = slot
    · rw [hi, Function.update_self, (h.nodup slot).mem_erase_iff, and_comm]
    · rw [Function.update_of_ne hi]
      refine ⟨fun hy => ⟨hy, ?_⟩, And.left⟩
      rintro rfl
      exact hi ((h.hash i _ hy).2.symm.trans (h.hash slot _ hx).2)
  have hheld : ∀ y, t'.Held y ↔ t.Held y ∧ y ≠ x := by
    intro y
    cases y with
    | home i =>
      rw [Held, Held, huuid, hxn]
      exact ⟨fun hy => ⟨hy, nofun⟩, And.left⟩
    | heap m =>
      constructor
      · rintro ⟨i, hy⟩
        obtain ⟨hy, hne⟩ := (hmem i _).mp hy
        exact ⟨⟨i, hy⟩, hne⟩
      · rintro ⟨⟨i, hy⟩, hne⟩
        exact ⟨i, (hmem i _).mpr ⟨hy, hne⟩⟩
  refine ⟨?_, hheld, fun u => ?_⟩
  · constructor
    · intro i
      have hne : Ref.home i ≠ x := by
        rw [hxn]
        exact nofun
      rw [hfreed, Function.update_of_ne hne]
      exact h.home i
    · intro i y hy
      obtain ⟨hy, hne⟩ := (hmem i y).mp hy
      rw [hfreed, Function.update_of_ne hne, hheap]
      exact h.heap i y hy
    · intro i h0
      rw [huuid] at h0
      refine List.eq_nil_iff_forall_not_mem.mpr fun y hy => ?_
      have hy' := ((hmem i y).mp hy).1
      rw [h.empty i h0] at hy'
      exact List.not_mem_nil hy'
    · intro i h0
      rw [huuid] at h0 ⊢
      exact h.hash_home i h0
    · intro i y hy
      rw [huuid]
      exact h.hash i y ((hmem i y).mp hy).1
    · intro i
      rw [hchain]
      by_cases hi : i = slot
      · rw [hi, Function.update_self]
        exact (h.nodup slot).erase _
      · rw [Function.update_of_ne hi]
        exact h.nodup i
    · intro y z hy hz heq
      rw [huuid, huuid] at heq
      exact h.inj y z ((hheld y).mp hy).1 ((hheld z).mp hz).1 heq
  · constructor
    · rintro ⟨y, hy, rfl⟩
      obtain ⟨hy, hne⟩ := (hheld y).mp hy
      rw [huuid]
      exact ⟨⟨y, hy, rfl⟩, fun heq => hne (h.inj y x hy (h.held_of_mem hx) heq)⟩
    · rintro ⟨⟨y, hy, rfl⟩, hne⟩
      refine ⟨y, (hheld y).mpr ⟨hy, ?_⟩, huuid y⟩
      rintro rfl
      exact hne rfl

/-- A home slot without a chain is emptied. -/
theorem ContextsOk.blank (h : t.ContextsOk uuidHash) (t' : Tables) {slot : Fin 256}
    (hx : t.Held (.home slot)) (hnil : t.contextChain slot = [])
    (huuid : ∀ y, (t'.context y).uuid = if y = .home slot then 0 else (t.context y).uuid)
    (hchain : t'.contextChain = t.contextChain) (hfreed : t'.contextFreed = t.contextFreed)
    (hheap : t'.nextHeap = t.nextHeap) :
    t'.ContextsOk uuidHash ∧ (∀ y, t'.Held y ↔ t.Held y ∧ y ≠ .home slot) ∧
      ∀ u, u ≠ 0 → (t'.Has u ↔ t.Has u ∧ u ≠ (t.context (.home slot)).uuid) := by
  have hother : ∀ y, y ≠ .home slot → (t'.context y).uuid = (t.context y).uuid :=
    fun y hy => (huuid y).trans (if_neg hy)
  have hself : (t'.context (.home slot)).uuid = 0 := (huuid _).trans (if_pos rfl)
  have hheld : ∀ y, t'.Held y ↔ t.Held y ∧ y ≠ .home slot := by
    intro y
    cases y with
    | home i =>
      by_cases hi : i = slot
      · subst hi
        exact ⟨fun hy => absurd hself hy, fun hy => absurd rfl hy.2⟩
      · have hne : Ref.home i ≠ .home slot := fun heq => hi (Ref.home.inj heq)
        rw [Held, Held, hother _ hne]
        exact ⟨fun hy => ⟨hy, hne⟩, And.left⟩
    | heap n =>
      rw [Held, Held, hchain]
      exact ⟨fun hy => ⟨hy, nofun⟩, And.left⟩
  have hheap' : ∀ i, ∀ y ∈ t.contextChain i, y ≠ .home slot := by
    rintro i y hy rfl
    obtain ⟨-, n, -, heq⟩ := h.heap i _ hy
    cases heq
  refine ⟨?_, hheld, fun u hu => ?_⟩
  · constructor
    · intro i
      rw [hfreed]
      exact h.home i
    · intro i y hy
      rw [hchain] at hy
      rw [hfreed, hheap]
      exact h.heap i y hy
    · intro i h0
      rw [hchain]
      by_cases hi : i = slot
      · rw [hi, hnil]
      · rw [hother _ fun heq => hi (Ref.home.inj heq)] at h0
        exact h.empty i h0
    · intro i h0
      have hne := ((hheld (.home i)).mp h0).2
      rw [hother _ hne] at h0 ⊢
      exact h.hash_home i h0
    · intro i y hy
      rw [hchain] at hy
      rw [hother y (hheap' i y hy)]
      exact h.hash i y hy
    · intro i
      rw [hchain]
      exact h.nodup i
    · intro y z hy hz heq
      obtain ⟨hy, hyne⟩ := (hheld y).mp hy
      obtain ⟨hz, hzne⟩ := (hheld z).mp hz
      rw [hother y hyne, hother z hzne] at heq
      exact h.inj y z hy hz heq
  · constructor
    · rintro ⟨y, hy, rfl⟩
      obtain ⟨hy, hne⟩ := (hheld y).mp hy
      rw [hother y hne]
      exact ⟨⟨y, hy, rfl⟩, fun heq => hne (h.inj y _ hy hx heq)⟩
    · rintro ⟨⟨y, hy, rfl⟩, hne⟩
      have hyne : y ≠ .home slot := by
        rintro rfl
        exact hne rfl
      exact ⟨y, (hheld y).mpr ⟨hy, hyne⟩, hother y hyne⟩

/-- The second entry of a chain takes the place of the first. -/
theorem ContextsOk.move (h : t.ContextsOk uuidHash) {slot : Fin 256} {n : Ref} {rest : List Ref}
    (hx : t.Held (.home slot)) (hcons : t.contextChain slot = n :: rest)
    (huuid : ∀ y, (t'.context y).uuid
      = if y = .home slot then (t.context n).uuid else (t.context y).uuid)
    (hchain : t'.contextChain = Function.update t.contextChain slot rest)
    (hfreed : t'.contextFreed = Function.update t.contextFreed n true)
    (hheap : t'.nextHeap = t.nextHeap) :
    t'.ContextsOk uuidHash ∧
      (∀ y, t'.Held y ↔ y = .home slot ∨ (t.Held y ∧ y ≠ .home slot) ∧ y ≠ n) ∧
      ∀ u, t'.Has u ↔ t.Has u ∧ u ≠ (t.context (.home slot)).uuid := by
  have hn : n ∈ t.contextChain slot := by
    rw [hcons]
    exact List.mem_cons_self
  have hnheld := h.held_of_mem hn
  obtain ⟨-, m, -, hnm⟩ := h.heap slot n hn
  have hnhome : ∀ i, Ref.home i ≠ n := by
    intro i
    rw [hnm]
    exact nofun
  have hother : ∀ y, y ≠ .home slot → (t'.context y).uuid = (t.context y).uuid :=
    fun y hy => (huuid y).trans (if_neg hy)
  have hself : (t'.context (.home slot)).uuid = (t.context n).uuid := (huuid _).trans (if_pos rfl)
  have hnodup := h.nodup slot
  rw [hcons, List.nodup_cons] at hnodup
  have hmem : ∀ i y, y ∈ t'.contextChain i ↔ y ∈ t.contextChain i ∧ y ≠ n := by
    intro i y
    rw [hchain]
    by_cases hi : i = slot
    · rw [hi, Function.update_self, hcons, List.mem_cons]
      constructor
      · intro hy
        refine ⟨Or.inr hy, ?_⟩
        rintro rfl
        exact hnodup.1 hy
      · rintro ⟨hy | hy, hne⟩
        · exact absurd hy hne
        · exact hy
    · rw [Function.update_of_ne hi]
      refine ⟨fun hy => ⟨hy, ?_⟩, And.left⟩
      rintro rfl
      exact hi ((h.hash i _ hy).2.symm.trans (h.hash slot _ hn).2)
  have hheap' : ∀ i, ∀ y ∈ t.contextChain i, y ≠ .home slot := by
    rintro i y hy rfl
    obtain ⟨-, k, -, heq⟩ := h.heap i _ hy
    cases heq
  have hheld : ∀ y, t'.Held y ↔ y = .home slot ∨ (t.Held y ∧ y ≠ .home slot) ∧ y ≠ n := by
    intro y
    cases y with
    | home i =>
      by_cases hi : i = slot
      · subst hi
        refine iff_of_true ?_ (Or.inl rfl)
        rw [Held, hself]
        exact h.uuid_ne hnheld
      · have hne : Ref.home i ≠ .home slot := fun heq => hi (Ref.home.inj heq)
        rw [Held, hother _ hne]
        exact ⟨fun hy => Or.inr ⟨⟨hy, hne⟩, hnhome i⟩, fun hy => (hy.resolve_left hne).1.1⟩
    | heap k =>
      constructor
      · rintro ⟨i, hy⟩
        obtain ⟨hy, hne⟩ := (hmem i _).mp hy
        exact Or.inr ⟨⟨⟨i, hy⟩, nofun⟩, hne⟩
      · rintro (hy | ⟨⟨⟨i, hy⟩, -⟩, hne⟩)
        · cases hy
        · exact ⟨i, (hmem i _).mpr ⟨hy, hne⟩⟩
  -- where an entry was before
  have hback : ∀ y, t'.Held y → ∃ z, t.Held z ∧ z ≠ .home slot ∧
      (t'.context y).uuid = (t.context z).uuid ∧ (y = .home slot → z = n) ∧
      (y ≠ .home slot → z = y ∧ y ≠ n) := by
    intro y hy
    rcases (hheld y).mp hy with rfl | ⟨⟨hy, hne⟩, hyn⟩
    · exact ⟨n, hnheld, (hnhome slot).symm, hself, fun _ => rfl, fun hc => absurd rfl hc⟩
    · exact ⟨y, hy, hne, hother y hne, fun hc => absurd hc hne, fun _ => ⟨rfl, hyn⟩⟩
  refine ⟨?_, hheld, fun u => ?_⟩
  · constructor
    · intro i
      rw [hfreed, Function.update_of_ne (hnhome i)]
      exact h.home i
    · intro i y hy
      obtain ⟨hy, hne⟩ := (hmem i y).mp hy
      rw [hfreed, Function.update_of_ne hne, hheap]
      exact h.heap i y hy
    · intro i h0
      have hne : Ref.home i ≠ .home slot := by
        intro heq
        rw [heq, hself] at h0
        exact h.uuid_ne hnheld h0
      rw [hother _ hne] at h0
      rw [hchain, Function.update_of_ne fun heq => hne (congrArg Ref.home heq)]
      exact h.empty i h0
    · intro i h0
      by_cases hi : i = slot
      · rw [hi, hself]
        exact (h.hash slot n hn).2
      · have hne : Ref.home i ≠ .home slot := fun heq => hi (Ref.home.inj heq)
        rw [hother _ hne] at h0 ⊢
        exact h.hash_home i h0
    · intro i y hy
      obtain ⟨hy, -⟩ := (hmem i y).mp hy
      rw [hother y (hheap' i y hy)]
      exact h.hash i y hy
    · intro i
      rw [hchain]
      by_cases hi : i = slot
      · rw [hi, Function.update_self]
        exact hnodup.2
      · rw [Function.update_of_ne hi]
        exact h.nodup i
    · intro y z hy hz heq
      obtain ⟨y', hy', -, hyu, hyhome, hyother⟩ := hback y hy
      obtain ⟨z', hz', -, hzu, hzhome, hzother⟩ := hback z hz
      have heq' := h.inj y' z' hy' hz' (hyu.symm.trans (heq.trans hzu))
      by_cases hyh : y = .home slot
      · by_cases hzh : z = .home slot
        · rw [hyh, hzh]
        · obtain ⟨rfl, hzn⟩ := hzother hzh
          exact absurd (heq'.symm.trans (hyhome hyh)) hzn
      · obtain ⟨rfl, hyn⟩ := hyother hyh
        by_cases hzh : z = .home slot
        · exact absurd (heq'.trans (hzhome hzh)) hyn
        · rw [heq', (hzother hzh).1]
  · constructor
    · rintro ⟨y, hy, rfl⟩
      obtain ⟨z, hz, hne, hu, -⟩ := hback y hy
      rw [hu]
      exact ⟨⟨z, hz, rfl⟩, fun heq => hne (h.inj z _ hz hx heq)⟩
    · rintro ⟨⟨y, hy, rfl⟩, hne⟩
      have hyne : y ≠ .home slot := by
        rintro rfl
        exact hne rfl
      by_cases hyn : y = n
      · exact ⟨.home slot, (hheld _).mpr (Or.inl rfl), hself.trans (congrArg _ (congrArg _ hyn.symm))⟩
      · exact ⟨y, (hheld y).mpr (Or.inr ⟨⟨hy, hyne⟩, hyn⟩), hother y hyne⟩

/-! ### A context is destroyed -/

/-- The tables and the lists of the clients. -/
structure Ok (t : Tables) (uuidHash : ℕ → Fin 256) : Prop where
  contexts : t.ContextsOk uuidHash
  clients : t.ClientsOk
  lists : ∃ lists, t.ListsOk lists t.Held

/-- The lists say nothing of entries that are on none. -/
theorem ListsOk.congr (hl : t.ListsOk lists H)
    (hclient : ∀ d, (t'.client d).firstContext = (t.client d).firstContext ∧
      (t'.client d).lastContext = (t.client d).lastContext ∧
      (t'.client d).count = (t.client d).count)
    (hknown : ∀ d, t'.Known d ↔ t.Known d)
    (hcontext : ∀ y, H y → t'.nextIn y = t.nextIn y ∧ t'.prevIn y = t.prevIn y ∧
      (t'.context y).pClientEntry = (t.context y).pClientEntry ∧
      t'.contextFreed y = t.contextFreed y)
    (hH : ∀ y, H' y ↔ H y) : t'.ListsOk lists H' := by
  constructor
  · intro d hd
    have hd' := (hknown d).mp hd
    have hold := hl.list d hd'
    have hmem : ∀ y ∈ lists d, H y := fun y hy => ((hl.mem d hd' y).mp hy).1
    refine ⟨hold.linked.congr (fun y hy => (hcontext y (hmem y hy)).1)
      (fun y hy => (hcontext y (hmem y hy)).2.1), hold.nodup, ?_, ?_, ?_⟩
    · exact (hclient d).1.trans hold.first
    · exact (hclient d).2.1.trans hold.last
    · exact (hclient d).2.2.trans hold.count
  · intro d hd y
    rw [hl.mem d ((hknown d).mp hd) y, hH]
    refine and_congr_right fun hy => ?_
    rw [(hcontext y hy).2.2.1]
  · intro y hy
    rw [hH] at hy
    obtain ⟨-, -, hp, hf⟩ := hcontext y hy
    rw [hp, hf, hknown]
    exact hl.known y hy

/-- The clients stay as they are after a context was taken from one of them. -/
theorem Taken.congr {t'' : Tables} {close : ℕ} (h : Taken t t' c close)
    (hknown : ∀ d, t''.Known d ↔ t'.Known d)
    (hclient : ∀ d, (t''.client d).client = (t'.client d).client ∧
      (t''.client d).refCount = (t'.client d).refCount ∧
      (t''.client d).rundownPending = (t'.client d).rundownPending ∧
      (t''.client d).count = (t'.client d).count) : Taken t t'' c close where
  known d := (hknown d).trans (h.known d)
  same d hd := by
    obtain ⟨h₁, h₂, h₃, -⟩ := hclient d
    rw [h₁, h₂, h₃]
    exact h.same d ((hknown d).mp hd)
  count hd := ((hclient c).2.2.2).trans (h.count ((hknown c).mp hd))
  close := h.close

/-- A context in the home slot is destroyed. -/
theorem lkddest_home {slot : Fin 256} (h : t.Ok uuidHash) (hx : t.Held (.home slot))
    (hslot : uuidHash (t.context (.home slot)).uuid = slot) :
    ∃ t' close, t.lkddestCalleeContext uuidHash (t.context (.home slot)).uuid = some (t', some close) ∧
      t'.Ok uuidHash ∧ Taken t t' (t.context (.home slot)).pClientEntry close ∧
      ∀ u, u ≠ 0 → (t'.Has u ↔ t.Has u ∧ u ≠ (t.context (.home slot)).uuid) := by
  obtain ⟨ho, hc, lists, hl⟩ := h
  obtain ⟨t₁, close, lists₁, hrun, hc₁, hl₁, htaken, huuid₁, hclient₁, hchain₁, hfreed₁, hheap₁⟩ :=
    takeFromCalleeClient_spec hc hl hx
  obtain ⟨ho₁, hheld₁, hhas₁⟩ := ho.congr _ huuid₁ hchain₁ hfreed₁ hheap₁
  have hx₁ := (hheld₁ _).mpr hx
  rw [lkddestCalleeContext, hslot, readContext_eq (ho.home slot)]
  show ∃ t' close', (if (t.context (.home slot)).uuid = (t.context (.home slot)).uuid then
    (t.takeFromCalleeClient (.home slot)).bind _ else _) = some (t', some close') ∧ _
  rw [if_pos rfl, hrun, Option.bind_some]
  cases hcase : t₁.contextChain slot with
  | nil =>
    simp only [hcase]
    show ∃ t' close', (t₁.writeContext (.home slot) _).bind _ = some (t', some close') ∧ _
    rw [writeContext_eq (ho₁.home slot), Option.bind_some]
    set t₂ := t₁.setContext (.home slot) fun e => { e with uuid := 0 } with ht₂
    have hctx₂ : ∀ y, t₂.context y = if y = .home slot then
        { t₁.context (.home slot) with uuid := 0 } else t₁.context y := fun y => context_setContext _ _ _
    obtain ⟨ho₂, hheld₂, hhas₂⟩ := ho₁.blank t₂ hx₁ hcase (fun y => by
      rw [hctx₂]
      split <;> rfl) rfl rfl rfl
    obtain ⟨hc₂, hknown₂⟩ := hc₁.congr t₂ (fun _ => rfl) rfl rfl rfl
    refine ⟨t₂, close, rfl, ⟨ho₂, hc₂, lists₁, ?_⟩, htaken.congr hknown₂ fun d => ⟨rfl, rfl, rfl, rfl⟩,
      fun u hu => ?_⟩
    · refine hl₁.congr (fun _ => ⟨rfl, rfl, rfl⟩) hknown₂ ?_ fun y => ?_
      · rintro y ⟨-, hne⟩
        have hy : t₂.context y = t₁.context y := (hctx₂ y).trans (if_neg hne)
        rw [nextIn, prevIn, nextIn, prevIn, hy]
        exact ⟨rfl, rfl, rfl, rfl⟩
      · rw [hheld₂, hheld₁]
    · rw [hhas₂ u hu, hhas₁, huuid₁]
  | cons n rest =>
    simp only [hcase]
    show ∃ t' close', (t₁.moveToHome slot n rest).bind _ = some (t', some close') ∧ _
    have hn : n ∈ t₁.contextChain slot := by
      rw [hcase]
      exact List.mem_cons_self
    have hnhome : n ≠ .home slot := by
      obtain ⟨-, m, -, rfl⟩ := ho₁.heap slot n hn
      exact (Ref.home_ne_heap slot m).symm
    have hnheld := (hheld₁ n).mp (ho₁.held_of_mem hn)
    obtain ⟨t₂, lists₂, hrun₂, hc₂, hknown₂, hl₂, hclient₂, huuid₂, hchain₂, hfreed₂, hheap₂⟩ :=
      moveToHome_spec rest hc₁ hl₁ ⟨hnheld, hnhome⟩ hnhome (fun hhome => hhome.2 rfl)
        (ho₁.home slot)
    obtain ⟨ho₂, hheld₂, hhas₂⟩ := ho₁.move hx₁ hcase huuid₂ hchain₂ hfreed₂ hheap₂
    rw [hrun₂, Option.bind_some]
    refine ⟨t₂, close, rfl, ⟨ho₂, hc₂, lists₂, ?_⟩, htaken.congr hknown₂ hclient₂, fun u _ => ?_⟩
    · have hH : t₂.Held = fun y => y = .home slot ∨ (t.Held y ∧ y ≠ .home slot) ∧ y ≠ n := by
        funext y
        rw [hheld₂, hheld₁]
      rw [hH]
      exact hl₂
    · rw [hhas₂, hhas₁, huuid₁]

/-- A context in an overflow chain is destroyed. -/
theorem lkddest_chain {slot : Fin 256} (h : t.Ok uuidHash) (hx : x ∈ t.contextChain slot)
    (hhome : (t.context (.home slot)).uuid ≠ (t.context x).uuid) :
    ∃ t' close, t.lkddestCalleeContext uuidHash (t.context x).uuid = some (t', some close) ∧
      t'.Ok uuidHash ∧ Taken t t' (t.context x).pClientEntry close ∧
      ∀ u, t'.Has u ↔ t.Has u ∧ u ≠ (t.context x).uuid := by
  obtain ⟨ho, hc, lists, hl⟩ := h
  have hheld := ho.held_of_mem hx
  have hslot := (ho.hash slot x hx).2
  obtain ⟨t₁, close, lists₁, hrun, hc₁, hl₁, htaken, huuid₁, hclient₁, hchain₁, hfreed₁, hheap₁⟩ :=
    takeFromCalleeClient_spec hc hl hheld
  obtain ⟨ho₁, hheld₁, hhas₁⟩ := ho.congr _ huuid₁ hchain₁ hfreed₁ hheap₁
  have hfind : t.walkContexts (t.context x).uuid (t.contextChain slot) = some (some x) := by
    rw [walkContexts_eq fun y hy => (ho.heap slot y hy).1]
    refine congrArg some ?_
    cases hfound : (t.contextChain slot).find? fun y => (t.context y).uuid = (t.context x).uuid with
    | none =>
      rw [List.find?_eq_none] at hfound
      exact absurd (decide_eq_true rfl) (hfound x hx)
    | some y =>
      have hy := List.mem_of_find?_eq_some hfound
      have heq := List.find?_some hfound
      rw [decide_eq_true_eq] at heq
      rw [ho.inj y x (ho.held_of_mem hy) hheld heq]
  set t₂ : Tables := { t₁ with
    contextChain := Function.update t₁.contextChain slot ((t₁.contextChain slot).erase x)
    contextFreed := Function.update t₁.contextFreed x true } with ht₂
  have hrunAll : t.lkddestCalleeContext uuidHash (t.context x).uuid = some (t₂, some close) := by
    rw [lkddestCalleeContext, hslot, readContext_eq (ho.home slot)]
    show (if (t.context (.home slot)).uuid = (t.context x).uuid then _ else
      (t.walkContexts (t.context x).uuid (t.contextChain slot)).bind _) = _
    rw [if_neg hhome, hfind, Option.bind_some]
    show (t.takeFromCalleeClient x).bind _ = _
    rw [hrun, Option.bind_some]
  have hx₁ : x ∈ t₁.contextChain slot := by
    rw [hchain₁]
    exact hx
  obtain ⟨ho₂, hheld₂, hhas₂⟩ := ho₁.erase t₂ hx₁ (fun _ => rfl) rfl rfl rfl
  obtain ⟨hc₂, hknown₂⟩ := hc₁.congr t₂ (fun _ => rfl) rfl rfl rfl
  refine ⟨t₂, close, hrunAll, ⟨ho₂, hc₂, lists₁, ?_⟩,
    htaken.congr hknown₂ fun d => ⟨rfl, rfl, rfl, rfl⟩, fun u => ?_⟩
  · refine hl₁.congr (fun _ => ⟨rfl, rfl, rfl⟩) hknown₂ ?_ fun y => ?_
    · rintro y ⟨-, hne⟩
      exact ⟨rfl, rfl, rfl, Function.update_of_ne hne _ _⟩
    · rw [hheld₂, hheld₁]
  · rw [hhas₂, hhas₁, huuid₁]

theorem lkddestCalleeContext_spec (h : t.Ok uuidHash) (hx : t.Held x) :
    ∃ t' close, t.lkddestCalleeContext uuidHash (t.context x).uuid = some (t', some close) ∧
      t'.Ok uuidHash ∧ Taken t t' (t.context x).pClientEntry close ∧
      ∀ u, u ≠ 0 → (t'.Has u ↔ t.Has u ∧ u ≠ (t.context x).uuid) := by
  cases x with
  | home slot => exact lkddest_home h hx (h.contexts.hash_home slot hx)
  | heap n =>
    obtain ⟨slot, hmem⟩ := hx
    have hhome : (t.context (.home slot)).uuid ≠ (t.context (.heap n)).uuid := by
      intro heq
      have hhome : t.Held (.home slot) := by
        rw [Held, heq]
        exact (h.contexts.hash slot _ hmem).1
      exact absurd (h.contexts.inj _ _ hhome (h.contexts.held_of_mem hmem) heq) nofun
    obtain ⟨t', close, hrun, hok, htaken, hhas⟩ := lkddest_chain h hmem hhome
    exact ⟨t', close, hrun, hok, htaken, fun u _ => hhas u⟩

theorem lkddestCalleeContext_absent (h : t.ContextsOk uuidHash) (h0 : uuid ≠ 0)
    (habsent : ¬ t.Has uuid) : t.lkddestCalleeContext uuidHash uuid = some (t, none) := by
  rw [lkddestCalleeContext, readContext_eq (h.home _)]
  have hhome : (t.context (.home (uuidHash uuid))).uuid ≠ uuid := by
    intro heq
    refine habsent ⟨.home (uuidHash uuid), ?_, heq⟩
    rw [Held, heq]
    exact h0
  have hfind : t.walkContexts uuid (t.contextChain (uuidHash uuid)) = some none := by
    rw [walkContexts_eq fun y hy => (h.heap _ y hy).1]
    refine congrArg some (List.find?_eq_none.mpr fun y hy heq => ?_)
    rw [decide_eq_true_eq] at heq
    exact habsent ⟨y, h.held_of_mem hy, heq⟩
  show (if (t.context (.home (uuidHash uuid))).uuid = uuid then _ else
    (t.walkContexts uuid (t.contextChain (uuidHash uuid))).bind _) = _
  rw [if_neg hhome, hfind, Option.bind_some]

end Tables

end Ctx

end Idl
