/-
The lists of contexts of the clients, as the operations on the tables leave them.

* `takeFromCalleeClient_spec` — a context is taken from its client, whose entry may go;
* `moveToHome_spec` — a context comes to another place in the table and keeps its place on the list.
-/
import FreeDce.Idl.ContextTable

namespace Idl

namespace Ctx

open Pointers

namespace Tables

variable {t t' : Tables} {uuidHash : ℕ → Fin 256} {c x : Ref} {l₁ l₂ : List Ref}
  {lists : Ref → List Ref} {H : Ref → Prop}

/-! ### A context leaves the list of its client -/

/-- The first half of `unlinkContext`: the predecessor, or the client, is led past the context. -/
theorem unlink_first (hfreed : t.clientFreed c = false)
    (hlive : ∀ z ∈ l₁, t.contextFreed z = false)
    (hnodup : (l₁ ++ x :: l₂).Nodup) (hfirst : (t.client c).firstContext = (l₁ ++ x :: l₂).head?)
    (hprev : (t.context x).prevInClient = l₁.getLast?) :
    ∃ t', (if (t.client c).firstContext = some x then
        t.writeClient c fun ce => { ce with firstContext := l₂.head? }
      else do
        let p ← (t.context x).prevInClient
        t.writeContext p fun q => { q with nextInClient := l₂.head? }) = some t' ∧ Frame t t' ∧
      (∀ d ≠ c, t'.client d = t.client d) ∧
      t'.client c = { t.client c with firstContext := (l₁ ++ l₂).head? } ∧
      (∀ z, t'.prevIn z = t.prevIn z) ∧
      (∀ z, t'.nextIn z = if l₁.getLast? = some z then l₂.head? else t.nextIn z) := by
  rcases List.eq_nil_or_concat' l₁ with rfl | ⟨l, p, rfl⟩
  · rw [List.nil_append, List.head?_cons] at hfirst
    rw [if_pos hfirst, writeClient_eq hfreed]
    refine ⟨_, rfl, frame_setClient c _, fun d hd => ?_, ?_, fun z => rfl, fun z => rfl⟩
    · rw [client_setClient, if_neg hd]
    · rw [client_setClient, if_pos rfl]
      rfl
  · have hne : (t.client c).firstContext ≠ some x := by
      rw [hfirst]
      cases l with
      | nil =>
        intro h
        obtain rfl : p = x := Option.some_inj.mp h
        simp at hnodup
      | cons a l =>
        intro h
        obtain rfl : a = x := Option.some_inj.mp h
        simp at hnodup
    rw [List.getLast?_concat] at hprev
    have hp := hlive p (List.mem_append_right _ List.mem_cons_self)
    rw [if_neg hne, hprev, Option.bind_eq_bind, Option.bind_some, writeContext_eq hp]
    refine ⟨_, rfl, frame_setContext p fun e => ⟨rfl, rfl⟩, fun d _ => rfl, ?_, fun z => ?_,
      fun z => ?_⟩
    · show t.client c = _
      have hhead : (l ++ [p] ++ l₂).head? = (t.client c).firstContext := by
        rw [hfirst]
        cases l <;> rfl
      rw [hhead]
    · rw [prevIn, context_setContext]
      split
      · rename_i h
        rw [h]
        rfl
      · rfl
    · rw [nextIn, context_setContext, List.getLast?_concat]
      by_cases h : z = p
      · rw [if_pos h, if_pos (congrArg some h.symm)]
      · rw [if_neg h, if_neg fun hs => h (Option.some_inj.mp hs).symm]
        rfl

/-- The second half: the successor, or the client, is led back past the context. -/
theorem unlink_last (hfreed : t.clientFreed c = false)
    (hlive : ∀ z ∈ l₂, t.contextFreed z = false)
    (hnodup : (l₁ ++ x :: l₂).Nodup) (hlast : (t.client c).lastContext = (l₁ ++ x :: l₂).getLast?) :
    ∃ t', (if (t.client c).lastContext = some x then
        t.writeClient c fun ce => { ce with lastContext := l₁.getLast? }
      else do
        let n ← l₂.head?
        t.writeContext n fun q => { q with prevInClient := l₁.getLast? }) = some t' ∧ Frame t t' ∧
      (∀ d ≠ c, t'.client d = t.client d) ∧
      t'.client c = { t.client c with lastContext := (l₁ ++ l₂).getLast? } ∧
      (∀ z, t'.nextIn z = t.nextIn z) ∧
      (∀ z, t'.prevIn z = if l₂.head? = some z then l₁.getLast? else t.prevIn z) := by
  cases l₂ with
  | nil =>
    rw [List.getLast?_concat] at hlast
    rw [if_pos hlast, writeClient_eq hfreed]
    refine ⟨_, rfl, frame_setClient c _, fun d hd => ?_, ?_, fun z => rfl, fun z => rfl⟩
    · rw [client_setClient, if_neg hd]
    · rw [client_setClient, if_pos rfl, List.append_nil]
  | cons n l =>
    have hlast' : (t.client c).lastContext = (l₁ ++ n :: l).getLast? := by
      rw [hlast, List.getLast?_append, List.getLast?_append, List.getLast?_cons_cons]
    have hne : (t.client c).lastContext ≠ some x := by
      intro h
      rw [hlast, List.getLast?_append, List.getLast?_cons_cons] at h
      have hx : x ∉ n :: l := (List.nodup_cons.mp hnodup.of_append_right).1
      rw [List.getLast?_cons] at h
      refine hx (List.mem_of_getLast? ?_)
      rw [List.getLast?_cons]
      exact h
    have hn := hlive n List.mem_cons_self
    rw [if_neg hne, List.head?_cons, Option.bind_eq_bind, Option.bind_some, writeContext_eq hn]
    refine ⟨_, rfl, frame_setContext n fun e => ⟨rfl, rfl⟩, fun d _ => rfl, ?_, fun z => ?_,
      fun z => ?_⟩
    · show t.client c = _
      rw [← hlast']
    · rw [nextIn, context_setContext]
      split
      · rename_i h
        rw [h]
        rfl
      · rfl
    · rw [prevIn, context_setContext]
      by_cases h : z = n
      · rw [if_pos h, if_pos (congrArg some h.symm)]
      · rw [if_neg h, if_neg fun hs => h (Option.some_inj.mp hs).symm]
        rfl

/-- A context is taken out of the list of its client, which may have another count. -/
theorem unlinkContext_spec (hfreed : t.clientFreed c = false)
    (hlive : ∀ z ∈ l₁ ++ x :: l₂, t.contextFreed z = false)
    (hlinked : Linked t.nextIn t.prevIn none (l₁ ++ x :: l₂) none)
    (hnodup : (l₁ ++ x :: l₂).Nodup) (hfirst : (t.client c).firstContext = (l₁ ++ x :: l₂).head?)
    (hlast : (t.client c).lastContext = (l₁ ++ x :: l₂).getLast?) :
    ∃ t', t.unlinkContext c x = some t' ∧ Frame t t' ∧ (∀ d ≠ c, t'.client d = t.client d) ∧
      t'.client c = { t.client c with
        firstContext := (l₁ ++ l₂).head?, lastContext := (l₁ ++ l₂).getLast? } ∧
      (∀ z, t'.nextIn z = if l₁.getLast? = some z then l₂.head? else t.nextIn z) ∧
      (∀ z, t'.prevIn z = if l₂.head? = some z then l₁.getLast? else t.prevIn z) ∧
      Linked t'.nextIn t'.prevIn none (l₁ ++ l₂) none := by
  obtain ⟨hp, hn, -, -⟩ := hlinked.middle
  have hx := hlive x (List.mem_append_right _ List.mem_cons_self)
  obtain ⟨t₁, hrun₁, hframe₁, hother₁, hself₁, hprev₁, hnext₁⟩ := unlink_first hfreed
    (fun z hz => hlive z (List.mem_append_left _ hz)) hnodup hfirst hp
  have hfreed₁ : t₁.clientFreed c = false := by
    rw [hframe₁.clientFreed]
    exact hfreed
  have hlast₁ : (t₁.client c).lastContext = (l₁ ++ x :: l₂).getLast? := by
    rw [hself₁]
    exact hlast
  obtain ⟨t₂, hrun₂, hframe₂, hother₂, hself₂, hnext₂, hprev₂⟩ := unlink_last hfreed₁
    (fun z hz => by
      rw [hframe₁.contextFreed]
      exact hlive z (List.mem_append_right _ (List.mem_cons_of_mem _ hz))) hnodup hlast₁
  have hnext : ∀ z, t₂.nextIn z = if l₁.getLast? = some z then l₂.head? else t.nextIn z :=
    fun z => (hnext₂ z).trans (hnext₁ z)
  have hprev : ∀ z, t₂.prevIn z = if l₂.head? = some z then l₁.getLast? else t.prevIn z := by
    intro z
    rw [hprev₂, hprev₁]
  refine ⟨t₂, ?_, hframe₁.trans hframe₂, fun d hd => (hother₂ d hd).trans (hother₁ d hd), ?_,
    hnext, hprev, ?_⟩
  · have hnext' : (t.context x).nextInClient = l₂.head? := hn
    have hprev' : (t.context x).prevInClient = l₁.getLast? := hp
    rw [unlinkContext, readContext_eq hx]
    show (t.readClient c).bind _ = _
    rw [readClient_eq hfreed, Option.bind_some, hnext', hrun₁]
    have hlastEq : (t.client c).lastContext = (t₁.client c).lastContext := hlast.trans hlast₁.symm
    show (if (t.client c).lastContext = some x then _ else _) = _
    rw [hlastEq, hprev']
    exact hrun₂
  · rw [hself₂, hself₁]
  · have hsplit : l₁ ++ x :: l₂ = l₁ ++ [x] ++ l₂ := by rw [List.append_assoc]; rfl
    rw [hsplit] at hlinked hnodup
    have hdisjoint : ∀ z ∈ l₁, z ∉ l₂ := fun z hz hz' =>
      List.disjoint_of_nodup_append hnodup (List.mem_append_left _ hz) hz'
    have hsplice : Linked t₂.nextIn t₂.prevIn none (l₁ ++ [] ++ l₂) none := by
      refine hlinked.splice hnodup ?_ ?_ ?_ ?_ ?_ ?_ linked_nil
      · intro z _ hne
        rw [hnext, if_neg (Ne.symm hne)]
      · intro z hz
        rw [hprev, if_neg fun h : l₂.head? = some z => hdisjoint z hz (List.mem_of_mem_head? h)]
      · intro z hz
        rw [hnext, if_neg fun h => hdisjoint z (List.mem_of_getLast? h) hz]
      · intro z hz
        rw [hprev, if_neg]
        intro h
        have hnodup₂ := hnodup.of_append_right
        cases l₂ with
        | nil => cases h
        | cons n l =>
          obtain rfl := Option.some_inj.mp h
          exact (List.nodup_cons.mp hnodup₂).1 hz
      · intro z hz
        rw [hnext, if_pos hz]
        rfl
      · intro z hz
        rw [hprev, if_pos hz, List.append_nil]
    rwa [List.append_nil] at hsplice

/-! ### The entry of a client -/

theorem ClientsOk.not_freed (h : t.ClientsOk) (hc : t.Known c) : t.clientFreed c = false := by
  cases c with
  | home slot => exact h.home slot
  | heap n =>
    obtain ⟨slot, hmem⟩ := hc
    exact (h.heap slot _ hmem).1

theorem ClientsOk.client_ne (h : t.ClientsOk) (hc : t.Known c) : (t.client c).client ≠ 0 := by
  cases c with
  | home slot => exact hc
  | heap n =>
    obtain ⟨slot, hmem⟩ := hc
    exact (h.hash slot _ hmem).1

/-- An entry on the heap is in the chain of its client's slot. -/
theorem ClientsOk.mem_chain (h : t.ClientsOk) {n : ℕ} (hc : t.Known (.heap n)) :
    .heap n ∈ t.clientChain (hashClientId (t.client (.heap n)).client) := by
  obtain ⟨slot, hmem⟩ := hc
  rw [(h.hash slot _ hmem).2]
  exact hmem

/-- Clients that stay the same but for their lists. -/
theorem ClientsOk.congr (h : t.ClientsOk) (t' : Tables)
    (hclient : ∀ d, (t'.client d).client = (t.client d).client)
    (hchain : t'.clientChain = t.clientChain) (hfreed : t'.clientFreed = t.clientFreed)
    (hheap : t'.nextHeap = t.nextHeap) : t'.ClientsOk ∧ ∀ d, t'.Known d ↔ t.Known d := by
  have hknown : ∀ d, t'.Known d ↔ t.Known d := by
    intro d
    cases d with
    | home slot => rw [Known, Known, hclient]
    | heap n => rw [Known, Known, hchain]
  refine ⟨?_, hknown⟩
  constructor
  · intro slot
    rw [hfreed]
    exact h.home slot
  · intro slot d hd
    rw [hchain] at hd
    rw [hfreed, hheap]
    exact h.heap slot d hd
  · intro slot hne
    rw [hclient] at hne ⊢
    exact h.hash_home slot hne
  · intro slot d hd
    rw [hchain] at hd
    rw [hclient]
    exact h.hash slot d hd
  · intro slot
    rw [hchain]
    exact h.nodup slot
  · intro d d' hd hd' heq
    rw [hclient, hclient] at heq
    exact h.inj d d' ((hknown d).mp hd) ((hknown d').mp hd') heq

/-- The entry of a client is removed; one in the table stays readable. -/
theorem removeClientEntry_spec (h : t.ClientsOk) (hc : t.Known c) :
    ∃ t', t.removeClientEntry c = some t' ∧ t'.ClientsOk ∧
      (∀ d, t'.Known d ↔ t.Known d ∧ d ≠ c) ∧ (∀ d ≠ c, t'.client d = t.client d) ∧
      t'.context = t.context ∧ t'.contextChain = t.contextChain ∧
      t'.contextFreed = t.contextFreed ∧ t'.nextHeap = t.nextHeap := by
  have hfreed := h.not_freed hc
  rw [removeClientEntry, readClient_eq hfreed, Option.bind_eq_bind, Option.bind_some]
  cases c with
  | home slot =>
    show ∃ t', t.writeClient (.home slot) (fun ce => { ce with client := 0 }) = some t' ∧ _
    rw [writeClient_eq hfreed]
    have hclient : ∀ d, d ≠ .home slot →
        (t.setClient (.home slot) fun ce => { ce with client := 0 }).client d = t.client d :=
      fun d hd => (client_setClient _ _ _).trans (if_neg hd)
    have hself : ((t.setClient (.home slot) fun ce => { ce with client := 0 }).client
        (.home slot)).client = 0 := by
      rw [client_setClient, if_pos rfl]
    have hknown : ∀ d, (t.setClient (.home slot) fun ce => { ce with client := 0 }).Known d ↔
        t.Known d ∧ d ≠ .home slot := by
      intro d
      cases d with
      | home i =>
        by_cases hi : i = slot
        · subst hi
          exact ⟨fun hd => absurd hself hd, fun hd => absurd rfl hd.2⟩
        · have hne : Ref.home i ≠ .home slot := fun heq => hi (Ref.home.inj heq)
          rw [Known, hclient _ hne]
          exact ⟨fun hd => ⟨hd, hne⟩, And.left⟩
      | heap n => exact ⟨fun hd => ⟨hd, nofun⟩, And.left⟩
    have hheap : ∀ i, ∀ d ∈ t.clientChain i, d ≠ .home slot := by
      rintro i d hd rfl
      obtain ⟨-, n, -, heq⟩ := h.heap i _ hd
      cases heq
    refine ⟨_, rfl, ⟨h.home, h.heap, ?_, ?_, h.nodup, ?_⟩, hknown, hclient, rfl, rfl, rfl, rfl⟩
    · intro i hne
      have hi : Ref.home i ≠ .home slot := ((hknown (.home i)).mp hne).2
      rw [hclient _ hi] at hne ⊢
      exact h.hash_home i hne
    · intro i d hd
      rw [hclient d (hheap i d hd)]
      exact h.hash i d hd
    · intro d d' hd hd' heq
      obtain ⟨hd, hne⟩ := (hknown d).mp hd
      obtain ⟨hd', hne'⟩ := (hknown d').mp hd'
      rw [hclient d hne, hclient d' hne'] at heq
      exact h.inj d d' hd hd' heq
  | heap n =>
    have hmem := h.mem_chain hc
    set slot := hashClientId (t.client (.heap n)).client with hslot
    have hchain : ∀ i, ∀ d, d ∈ Function.update t.clientChain slot
        ((t.clientChain slot).erase (.heap n)) i ↔ d ∈ t.clientChain i ∧ d ≠ .heap n := by
      intro i d
      by_cases hi : i = slot
      · rw [hi, Function.update_self, (h.nodup slot).mem_erase_iff, and_comm]
      · rw [Function.update_of_ne hi]
        refine ⟨fun hd => ⟨hd, ?_⟩, And.left⟩
        rintro rfl
        exact hi (h.hash i _ hd).2.symm
    have hknown : ∀ d, Known { t with
        clientChain := Function.update t.clientChain slot ((t.clientChain slot).erase (.heap n))
        clientFreed := Function.update t.clientFreed (.heap n) true } d ↔
          t.Known d ∧ d ≠ .heap n := by
      intro d
      cases d with
      | home i => exact ⟨fun hd => ⟨hd, nofun⟩, And.left⟩
      | heap m =>
        constructor
        · rintro ⟨i, hd⟩
          obtain ⟨hd, hne⟩ := (hchain i _).mp hd
          exact ⟨⟨i, hd⟩, hne⟩
        · rintro ⟨⟨i, hd⟩, hne⟩
          exact ⟨i, (hchain i _).mpr ⟨hd, hne⟩⟩
    refine ⟨_, rfl, ⟨?_, ?_, h.hash_home, ?_, ?_, ?_⟩, hknown, fun d _ => rfl, rfl, rfl, rfl, rfl⟩
    · intro i
      have hne : Ref.home i ≠ .heap n := nofun
      exact (Function.update_of_ne hne true t.clientFreed).trans (h.home i)
    · intro i d hd
      obtain ⟨hd, hne⟩ := (hchain i d).mp hd
      exact ⟨(Function.update_of_ne hne true t.clientFreed).trans (h.heap i d hd).1, (h.heap i d hd).2⟩
    · intro i d hd
      exact h.hash i d ((hchain i d).mp hd).1
    · intro i
      show (Function.update t.clientChain slot _ i).Nodup
      by_cases hi : i = slot
      · rw [hi, Function.update_self]
        exact (h.nodup slot).erase _
      · rw [Function.update_of_ne hi]
        exact h.nodup i
    · intro d d' hd hd' heq
      exact h.inj d d' ((hknown d).mp hd).1 ((hknown d').mp hd').1 heq

/-! ### Taking a context from its client -/

/-- What taking a context from the client with the entry `c` does to the clients: an entry without
contexts goes, if no rundown is pending. -/
structure Taken (t t' : Tables) (c : Ref) (close : ℕ) : Prop where
  known : ∀ d, t'.Known d ↔
    t.Known d ∧ ¬ (d = c ∧ (t.client c).count = 1 ∧ (t.client c).rundownPending = false)
  same : ∀ d, t'.Known d → (t'.client d).client = (t.client d).client ∧
    (t'.client d).refCount = (t.client d).refCount ∧
    (t'.client d).rundownPending = (t.client d).rundownPending
  count : t'.Known c → (t'.client c).count = (t.client c).count - 1
  close : close = if (t.client c).count = 1 then (t.client c).client else 0

theorem takeFromCalleeClient_spec (hc : t.ClientsOk) (hl : t.ListsOk lists H) (hx : H x) :
    ∃ t' close lists', t.takeFromCalleeClient x = some (t', close) ∧ t'.ClientsOk ∧
      t'.ListsOk lists' (fun y => H y ∧ y ≠ x) ∧ Taken t t' (t.context x).pClientEntry close ∧
      (∀ y, (t'.context y).uuid = (t.context y).uuid) ∧
      (∀ y, (t'.context y).pClientEntry = (t.context y).pClientEntry) ∧
      t'.contextChain = t.contextChain ∧ t'.contextFreed = t.contextFreed ∧
      t'.nextHeap = t.nextHeap := by
  obtain ⟨hknown, hxfreed⟩ := hl.known x hx
  set c := (t.context x).pClientEntry with hcdef
  have hfreed := hc.not_freed hknown
  have hlist := hl.list c hknown
  obtain ⟨l₁, l₂, hsplit⟩ := List.append_of_mem ((hl.mem c hknown x).mpr ⟨hx, rfl⟩)
  have hlive : ∀ z ∈ l₁ ++ x :: l₂, t.contextFreed z = false := by
    rw [← hsplit]
    exact fun z hz => (hl.known z ((hl.mem c hknown z).mp hz).1).2
  have hnodup : (l₁ ++ x :: l₂).Nodup := hsplit ▸ hlist.nodup
  have hcount : (t.client c).count - 1 = (l₁ ++ l₂).length := by
    rw [hlist.count, hsplit, List.length_append, List.length_append, List.length_cons]
    push_cast
    ring
  -- the count goes down first
  set t₁ := t.setClient c fun ce => { ce with count := ce.count - 1 } with ht₁
  have hclient₁ : t₁.client c = { t.client c with count := (t.client c).count - 1 } :=
    (client_setClient c c _).trans (if_pos rfl)
  have hother₁ : ∀ d ≠ c, t₁.client d = t.client d :=
    fun d hd => (client_setClient c d _).trans (if_neg hd)
  have hid₁ : ∀ d, (t₁.client d).client = (t.client d).client ∧
      (t₁.client d).refCount = (t.client d).refCount ∧
      (t₁.client d).rundownPending = (t.client d).rundownPending := by
    intro d
    by_cases hd : d = c
    · rw [hd, hclient₁]
      exact ⟨rfl, rfl, rfl⟩
    · rw [hother₁ d hd]
      exact ⟨rfl, rfl, rfl⟩
  obtain ⟨hc₁, hknown₁⟩ := hc.congr t₁ (fun d => (hid₁ d).1) rfl rfl rfl
  rw [takeFromCalleeClient, readContext_eq hxfreed]
  show ∃ t' close lists', (t.writeClient c _).bind _ = some (t', close) ∧ _
  rw [writeClient_eq hfreed, Option.bind_some]
  show ∃ t' close lists', (t₁.readClient c).bind _ = some (t', close) ∧ _
  rw [readClient_eq (show t₁.clientFreed c = false from hfreed), Option.bind_some, hclient₁]
  -- another client has none of the contexts of this one
  have hdisjoint : ∀ d, t.Known d → d ≠ c → ∀ z ∈ lists d, z ∉ l₁ ++ x :: l₂ := by
    intro d hd hne z hz hz'
    rw [← hsplit] at hz'
    exact hne (((hl.mem d hd z).mp hz).2.symm.trans ((hl.mem c hknown z).mp hz').2)
  by_cases hkeep : (t.client c).count - 1 ≠ 0 ∨ (t.client c).rundownPending = true
  · -- the entry stays, and the context is taken off its list
    obtain ⟨t₂, hrun, hframe, hother₂, hself₂, hnext₂, hprev₂, hlinked₂⟩ :=
      unlinkContext_spec (t := t₁) (c := c) (x := x) hfreed hlive
        (hsplit ▸ hlist.linked) hnodup (by rw [hclient₁, ← hsplit]; exact hlist.first)
        (by rw [hclient₁, ← hsplit]; exact hlist.last)
    have hid₂ : ∀ d, (t₂.client d).client = (t.client d).client ∧
        (t₂.client d).refCount = (t.client d).refCount ∧
        (t₂.client d).rundownPending = (t.client d).rundownPending := by
      intro d
      rw [← (hid₁ d).1, ← (hid₁ d).2.1, ← (hid₁ d).2.2]
      by_cases hd : d = c
      · rw [hd, hself₂]
        exact ⟨rfl, rfl, rfl⟩
      · rw [hother₂ d hd]
        exact ⟨rfl, rfl, rfl⟩
    obtain ⟨hc₂, hknown₂⟩ := hc.congr t₂ (fun d => (hid₂ d).1) hframe.clientChain
      hframe.clientFreed hframe.nextHeap
    have hcount₂ : (t₂.client c).count = (t.client c).count - 1 := by
      rw [hself₂, hclient₁]
    have hxmem : x ∉ l₁ ++ l₂ := by
      intro hmem
      rw [List.nodup_append, List.nodup_cons] at hnodup
      rcases List.mem_append.mp hmem with h | h
      · exact hnodup.2.2 x h x List.mem_cons_self rfl
      · exact hnodup.2.1.1 h
    have hlists : t₂.ListsOk (Function.update lists c (l₁ ++ l₂)) (fun y => H y ∧ y ≠ x) := by
      constructor
      · intro d hd
        by_cases hdc : d = c
        · subst hdc
          rw [Function.update_self]
          refine ⟨hlinked₂, ?_, ?_, ?_, hcount₂.trans hcount⟩
          · exact hnodup.sublist ((List.Sublist.refl l₁).append (List.sublist_cons_self x l₂))
          · rw [hself₂]
          · rw [hself₂]
        · rw [Function.update_of_ne hdc]
          have hd' := (hknown₂ d).mp hd
          have hold := hl.list d hd'
          have hclient : t₂.client d = t.client d := (hother₂ d hdc).trans (hother₁ d hdc)
          have hout : ∀ z ∈ lists d, z ∉ l₁ ∧ z ∉ l₂ := by
            intro z hz
            have hz' := hdisjoint d hd' hdc z hz
            rw [List.mem_append, List.mem_cons, not_or, not_or] at hz'
            exact ⟨hz'.1, hz'.2.2⟩
          refine ⟨hold.linked.congr ?_ ?_, hold.nodup, ?_, ?_, ?_⟩
          · intro z hz
            rw [hnext₂, if_neg fun h : l₁.getLast? = some z =>
              (hout z hz).1 (List.mem_of_getLast? h)]
            rfl
          · intro z hz
            rw [hprev₂, if_neg fun h : l₂.head? = some z =>
              (hout z hz).2 (List.mem_of_mem_head? h)]
            rfl
          · rw [hclient]
            exact hold.first
          · rw [hclient]
            exact hold.last
          · rw [hclient]
            exact hold.count
      · intro d hd z
        have hd' := (hknown₂ d).mp hd
        rw [hframe.pClientEntry z]
        show _ ↔ (H z ∧ z ≠ x) ∧ (t.context z).pClientEntry = d
        by_cases hdc : d = c
        · subst hdc
          rw [Function.update_self]
          have hmem := hl.mem c hknown z
          rw [hsplit, List.mem_append, List.mem_cons] at hmem
          rw [List.mem_append]
          constructor
          · intro hz
            obtain ⟨hHz, hpz⟩ := hmem.mp (hz.imp id Or.inr)
            refine ⟨⟨hHz, ?_⟩, hpz⟩
            rintro rfl
            exact hxmem (List.mem_append.mpr hz)
          · rintro ⟨⟨hHz, hne⟩, hpz⟩
            rcases hmem.mpr ⟨hHz, hpz⟩ with h | rfl | h
            · exact Or.inl h
            · exact absurd rfl hne
            · exact Or.inr h
        · rw [Function.update_of_ne hdc, hl.mem d hd' z]
          constructor
          · rintro ⟨hHz, hpz⟩
            refine ⟨⟨hHz, ?_⟩, hpz⟩
            rintro rfl
            exact hdc hpz.symm
          · rintro ⟨⟨hHz, -⟩, hpz⟩
            exact ⟨hHz, hpz⟩
      · rintro z ⟨hHz, -⟩
        obtain ⟨hkz, hfz⟩ := hl.known z hHz
        rw [hframe.pClientEntry z, hframe.contextFreed]
        exact ⟨(hknown₂ _).mpr hkz, hfz⟩
    have htaken : ∀ close, close = (if (t.client c).count = 1 then (t.client c).client else 0) →
        Taken t t₂ c close := by
      refine fun close hclose => ⟨fun d => ?_, fun d _ => hid₂ d, fun _ => hcount₂, hclose⟩
      rw [hknown₂]
      refine ⟨fun hd => ⟨hd, ?_⟩, And.left⟩
      rintro ⟨-, hone, hpending⟩
      rcases hkeep with h | h
      · exact h (by rw [hone]; rfl)
      · rw [hpending] at h
        cases h
    rw [if_pos hkeep, hrun]
    show ∃ t' close lists', (if (t.client c).count - 1 ≠ 0 then some (t₂, 0)
      else if (t.client c).rundownPending then some (t₂, (t.client c).client) else _)
        = some (t', close) ∧ _
    by_cases hzero : (t.client c).count - 1 = 0
    · rw [if_neg (not_not.mpr hzero), if_pos (hkeep.resolve_left (not_not.mpr hzero))]
      exact ⟨_, _, _, rfl, hc₂, hlists, htaken _ (if_pos (by omega)).symm, hframe.uuid,
        hframe.pClientEntry, hframe.contextChain, hframe.contextFreed, hframe.nextHeap⟩
    · rw [if_pos hzero]
      exact ⟨_, _, _, rfl, hc₂, hlists, htaken _ (if_neg (by omega)).symm, hframe.uuid,
        hframe.pClientEntry, hframe.contextChain, hframe.contextFreed, hframe.nextHeap⟩
  · -- the entry goes
    rw [not_or, not_not] at hkeep
    obtain ⟨hzero, hpending⟩ := hkeep
    rw [hzero] at hcount
    have hnil : l₁ ++ l₂ = [] := List.length_eq_zero_iff.mp (by exact_mod_cast hcount.symm)
    obtain ⟨rfl, rfl⟩ := List.append_eq_nil_iff.mp hnil
    obtain ⟨t₂, hrun, hc₂, hknown₂, hother₂, hcontext, hchain, hcfreed, hheap⟩ :=
      removeClientEntry_spec hc₁ ((hknown₁ c).mpr hknown)
    rw [if_neg (not_or.mpr ⟨not_not.mpr hzero, hpending⟩)]
    show ∃ t' close lists', (if (t.client c).count - 1 ≠ 0 then some (t₁, 0)
      else if (t.client c).rundownPending = true then some (t₁, (t.client c).client)
      else (t₁.removeClientEntry c).bind fun t => some (t, _)) = some (t', close) ∧ _
    rw [if_neg (not_not.mpr hzero), if_neg hpending, hrun]
    have hdata : ∀ d, t₂.Known d → t.Known d ∧ d ≠ c ∧ t₂.client d = t.client d := by
      intro d hd
      obtain ⟨hd, hne⟩ := (hknown₂ d).mp hd
      exact ⟨(hknown₁ d).mp hd, hne, (hother₂ d hne).trans (hother₁ d hne)⟩
    have hctx : t₂.context = t.context := hcontext
    refine ⟨_, _, lists, rfl, hc₂, ⟨fun d hd => ?_, fun d hd z => ?_, ?_⟩, ⟨fun d => ?_,
      fun d hd => ?_, fun hd => absurd rfl (hdata c hd).2.1, (if_pos (by omega)).symm⟩,
      fun y => by rw [hctx], fun y => by rw [hctx], hchain, hcfreed, hheap⟩
    · obtain ⟨hd', -, hclient⟩ := hdata d hd
      have hold := hl.list d hd'
      refine ⟨hold.linked.congr (fun z _ => ?_) fun z _ => ?_, hold.nodup, ?_, ?_, ?_⟩
      · rw [nextIn, nextIn, hctx]
      · rw [prevIn, prevIn, hctx]
      · rw [hclient]
        exact hold.first
      · rw [hclient]
        exact hold.last
      · rw [hclient]
        exact hold.count
    · obtain ⟨hd', hne, -⟩ := hdata d hd
      rw [hctx, hl.mem d hd' z]
      constructor
      · rintro ⟨hHz, hpz⟩
        refine ⟨⟨hHz, ?_⟩, hpz⟩
        rintro rfl
        exact hne hpz.symm
      · rintro ⟨⟨hHz, -⟩, hpz⟩
        exact ⟨hHz, hpz⟩
    · rintro z ⟨hHz, hne⟩
      obtain ⟨hkz, hfz⟩ := hl.known z hHz
      rw [hctx, hcfreed]
      refine ⟨(hknown₂ _).mpr ⟨(hknown₁ _).mpr hkz, ?_⟩, hfz⟩
      intro hpz
      -- the only context of the client is the one that is taken
      have hmem := (hl.mem c hknown z).mpr ⟨hHz, hpz⟩
      rw [hsplit, List.nil_append, List.mem_singleton] at hmem
      exact hne hmem
    · rw [hknown₂, hknown₁]
      constructor
      · rintro ⟨hd, hne⟩
        exact ⟨hd, fun h => hne h.1⟩
      · rintro ⟨hd, hne⟩
        refine ⟨hd, fun h => hne ⟨h, by omega, ?_⟩⟩
        rwa [Bool.not_eq_true] at hpending
    · obtain ⟨-, -, hclient⟩ := hdata d hd
      rw [hclient]
      exact ⟨rfl, rfl, rfl⟩

/-! ### A context is moved -/

variable {n h : Ref}

/-- The predecessor of a context, or its client, is led to the new place. -/
theorem relink_first (hfreed : t.clientFreed c = false)
    (hlive : ∀ z ∈ l₁, t.contextFreed z = false)
    (hfirst : (t.client c).firstContext = (l₁ ++ n :: l₂).head?) :
    ∃ t', t.leadForward c h l₁.getLast? = some t' ∧
      Frame t t' ∧ (∀ d ≠ c, t'.client d = t.client d) ∧
      t'.client c = { t.client c with firstContext := (l₁ ++ h :: l₂).head? } ∧
      (∀ z, t'.prevIn z = t.prevIn z) ∧
      (∀ z, t'.nextIn z = if l₁.getLast? = some z then some h else t.nextIn z) := by
  rcases List.eq_nil_or_concat' l₁ with rfl | ⟨l, p, rfl⟩
  · show ∃ t', t.writeClient c (fun ce => { ce with firstContext := some h }) = some t' ∧ _
    rw [writeClient_eq hfreed]
    refine ⟨_, rfl, frame_setClient c _, fun d hd => ?_, ?_, fun z => rfl, fun z => rfl⟩
    · rw [client_setClient, if_neg hd]
    · rw [client_setClient, if_pos rfl]
      rfl
  · have hp := hlive p (List.mem_append_right _ List.mem_cons_self)
    rw [List.getLast?_concat]
    show ∃ t', t.writeContext p (fun q => { q with nextInClient := some h }) = some t' ∧ _
    rw [writeContext_eq hp]
    refine ⟨_, rfl, frame_setContext p fun e => ⟨rfl, rfl⟩, fun d _ => rfl, ?_, fun z => ?_,
      fun z => ?_⟩
    · show t.client c = _
      have hhead : (l ++ [p] ++ h :: l₂).head? = (t.client c).firstContext := by
        rw [hfirst]
        cases l <;> rfl
      rw [hhead]
    · rw [prevIn, context_setContext]
      split
      · rename_i hz
        rw [hz]
        rfl
      · rfl
    · rw [nextIn, context_setContext]
      by_cases hz : z = p
      · rw [if_pos hz, if_pos (congrArg some hz.symm)]
      · rw [if_neg hz, if_neg fun hs => hz (Option.some_inj.mp hs).symm]
        rfl

/-- The successor of a context, or its client, is led back to the new place. -/
theorem relink_last (hfreed : t.clientFreed c = false)
    (hlive : ∀ z ∈ l₂, t.contextFreed z = false)
    (hlast : (t.client c).lastContext = (l₁ ++ n :: l₂).getLast?) :
    ∃ t', t.leadBack c h l₂.head? = some t' ∧
      Frame t t' ∧ (∀ d ≠ c, t'.client d = t.client d) ∧
      t'.client c = { t.client c with lastContext := (l₁ ++ h :: l₂).getLast? } ∧
      (∀ z, t'.nextIn z = t.nextIn z) ∧
      (∀ z, t'.prevIn z = if l₂.head? = some z then some h else t.prevIn z) := by
  cases l₂ with
  | nil =>
    show ∃ t', t.writeClient c (fun ce => { ce with lastContext := some h }) = some t' ∧ _
    rw [writeClient_eq hfreed]
    refine ⟨_, rfl, frame_setClient c _, fun d hd => ?_, ?_, fun z => rfl, fun z => rfl⟩
    · rw [client_setClient, if_neg hd]
    · rw [client_setClient, if_pos rfl, List.getLast?_concat]
  | cons p l =>
    have hp := hlive p List.mem_cons_self
    have hsame : (l₁ ++ h :: p :: l).getLast? = (t.client c).lastContext := by
      rw [hlast, List.getLast?_append, List.getLast?_append, List.getLast?_cons_cons,
        List.getLast?_cons_cons]
    show ∃ t', t.writeContext p (fun q => { q with prevInClient := some h }) = some t' ∧ _
    rw [writeContext_eq hp]
    refine ⟨_, rfl, frame_setContext p fun e => ⟨rfl, rfl⟩, fun d _ => rfl, ?_, fun z => ?_,
      fun z => ?_⟩
    · show t.client c = _
      rw [hsame]
    · rw [nextIn, context_setContext]
      split
      · rename_i hz
        rw [hz]
        rfl
      · rfl
    · rw [prevIn, context_setContext, List.head?_cons]
      by_cases hz : z = p
      · rw [if_pos hz, if_pos (congrArg some hz.symm)]
      · rw [if_neg hz, if_neg fun hs => hz (Option.some_inj.mp hs).symm]
        rfl

/-- The second context of a chain comes to the home slot, in its place on its client's list. -/
theorem moveToHome_spec {slot : Fin 256} (rest : List Ref) (hc : t.ClientsOk)
    (hl : t.ListsOk lists H) (hn : H n) (hnhome : n ≠ .home slot) (hhome : ¬ H (.home slot))
    (hhomefree : t.contextFreed (.home slot) = false) :
    ∃ t' lists', t.moveToHome slot n rest = some t' ∧ t'.ClientsOk ∧ (∀ d, t'.Known d ↔ t.Known d) ∧
      t'.ListsOk lists' (fun y => y = .home slot ∨ H y ∧ y ≠ n) ∧
      (∀ d, (t'.client d).client = (t.client d).client ∧
        (t'.client d).refCount = (t.client d).refCount ∧
        (t'.client d).rundownPending = (t.client d).rundownPending ∧
        (t'.client d).count = (t.client d).count) ∧
      (∀ y, (t'.context y).uuid = if y = .home slot then (t.context n).uuid
        else (t.context y).uuid) ∧
      t'.contextChain = Function.update t.contextChain slot rest ∧
      t'.contextFreed = Function.update t.contextFreed n true ∧ t'.nextHeap = t.nextHeap := by
  obtain ⟨hknown, hnfreed⟩ := hl.known n hn
  set c := (t.context n).pClientEntry with hcdef
  have hfreed := hc.not_freed hknown
  have hlist := hl.list c hknown
  obtain ⟨l₁, l₂, hsplit⟩ := List.append_of_mem ((hl.mem c hknown n).mpr ⟨hn, rfl⟩)
  have hlinked : Linked t.nextIn t.prevIn none (l₁ ++ n :: l₂) none := hsplit ▸ hlist.linked
  have hnodup : (l₁ ++ n :: l₂).Nodup := hsplit ▸ hlist.nodup
  have hlive : ∀ z ∈ l₁ ++ n :: l₂, t.contextFreed z = false ∧ z ≠ .home slot := by
    intro z hz
    rw [← hsplit] at hz
    obtain ⟨hHz, -⟩ := (hl.mem c hknown z).mp hz
    refine ⟨(hl.known z hHz).2, ?_⟩
    rintro rfl
    exact hhome hHz
  obtain ⟨hprev, hnext, -, -⟩ := hlinked.middle
  -- the home slot gets the contents of the second entry
  set t₁ := t.setContext (.home slot) fun _ => t.context n with ht₁
  have hctx₁ : ∀ z, t₁.context z = if z = .home slot then t.context n else t.context z :=
    fun z => context_setContext _ _ _
  obtain ⟨t₂, hrun₂, hframe₂, hother₂, hself₂, hprev₂, hnext₂⟩ := relink_first (t := t₁) (c := c)
    (n := n) (h := .home slot) hfreed
    (fun z hz => (hlive z (List.mem_append_left _ hz)).1)
    (by rw [← hsplit]; exact hlist.first)
  obtain ⟨t₃, hrun₃, hframe₃, hother₃, hself₃, hnext₃, hprev₃⟩ := relink_last (t := t₂) (c := c)
    (n := n) (h := .home slot) (by rw [hframe₂.clientFreed]; exact hfreed)
    (fun z hz => by
      rw [hframe₂.contextFreed]
      exact (hlive z (List.mem_append_right _ (List.mem_cons_of_mem _ hz))).1)
    (by
      rw [hself₂, ← hsplit]
      exact hlist.last)
  have hframe := hframe₂.trans hframe₃
  have hclient : t₃.client c = { t.client c with
      firstContext := (l₁ ++ .home slot :: l₂).head?
      lastContext := (l₁ ++ .home slot :: l₂).getLast? } := by
    rw [hself₃, hself₂]
    rfl
  have hother : ∀ d ≠ c, t₃.client d = t.client d := fun d hd => (hother₃ d hd).trans (hother₂ d hd)
  have hdata : ∀ d, (t₃.client d).client = (t.client d).client ∧
      (t₃.client d).refCount = (t.client d).refCount ∧
      (t₃.client d).rundownPending = (t.client d).rundownPending ∧
      (t₃.client d).count = (t.client d).count := by
    intro d
    by_cases hd : d = c
    · rw [hd, hclient]
      exact ⟨rfl, rfl, rfl, rfl⟩
    · rw [hother d hd]
      exact ⟨rfl, rfl, rfl, rfl⟩
  have hnextIn₁ : ∀ z, t₁.nextIn z = if z = .home slot then t.nextIn n else t.nextIn z := by
    intro z
    rw [nextIn, hctx₁]
    split <;> rfl
  have hprevIn₁ : ∀ z, t₁.prevIn z = if z = .home slot then t.prevIn n else t.prevIn z := by
    intro z
    rw [prevIn, hctx₁]
    split <;> rfl
  have hnext' : ∀ z, t₃.nextIn z = if l₁.getLast? = some z then some (.home slot)
      else if z = .home slot then t.nextIn n else t.nextIn z := by
    intro z
    rw [hnext₃, hnext₂, hnextIn₁]
  have hprev' : ∀ z, t₃.prevIn z = if l₂.head? = some z then some (.home slot)
      else if z = .home slot then t.prevIn n else t.prevIn z := by
    intro z
    rw [hprev₃, hprev₂, hprevIn₁]
  have hpClient : ∀ z, (t₃.context z).pClientEntry
      = if z = .home slot then c else (t.context z).pClientEntry := by
    intro z
    rw [hframe.pClientEntry, hctx₁]
    split <;> rfl
  obtain ⟨hc', hknown'⟩ := hc.congr ({ t₃ with
      contextChain := Function.update t₃.contextChain slot rest
      contextFreed := Function.update t₃.contextFreed n true })
    (fun d => (hdata d).1) hframe.clientChain hframe.clientFreed hframe.nextHeap
  have hrun : t.moveToHome slot n rest = some { t₃ with
      contextChain := Function.update t₃.contextChain slot rest
      contextFreed := Function.update t₃.contextFreed n true } := by
    have hp : (t.context n).prevInClient = l₁.getLast? := hprev
    have hnx : (t.context n).nextInClient = l₂.head? := hnext
    rw [moveToHome, readContext_eq hnfreed]
    show (t.writeContext (.home slot) _).bind _ = _
    rw [writeContext_eq hhomefree, Option.bind_some]
    rw [hp, hnx, hrun₂]
    simp only [Option.bind_eq_bind, Option.bind_some]
    rw [← hcdef, hrun₃]
    rfl
  refine ⟨_, Function.update lists c (l₁ ++ .home slot :: l₂), hrun, hc', hknown', ?_, hdata,
    fun y => ?_, ?_, ?_, hframe.nextHeap⟩
  · have hout : ∀ z ∈ l₁ ++ n :: l₂, z ≠ .home slot := fun z hz => (hlive z hz).2
    constructor
    · intro d hd
      have hd' := (hknown' d).mp hd
      by_cases hdc : d = c
      · subst hdc
        rw [Function.update_self]
        refine ⟨?_, ?_, ?_, ?_, ?_⟩
        · have hsplit' : l₁ ++ n :: l₂ = l₁ ++ [n] ++ l₂ := by rw [List.append_assoc]; rfl
          have hlinked' := hlinked
          have hnodup' := hnodup
          rw [hsplit'] at hlinked' hnodup'
          have hdisjoint : ∀ z ∈ l₁, z ∉ l₂ := fun z hz hz' =>
            List.disjoint_of_nodup_append hnodup' (List.mem_append_left _ hz) hz'
          have hmem₂ : ∀ z ∈ l₂, z ∈ l₁ ++ n :: l₂ := fun z hz =>
            List.mem_append_right _ (List.mem_cons_of_mem _ hz)
          have hspliced : Linked t₃.nextIn t₃.prevIn none (l₁ ++ [.home slot] ++ l₂) none := by
            refine hlinked'.splice hnodup' ?_ ?_ ?_ ?_ ?_ ?_ ?_
            · intro z hz hne
              rw [hnext', if_neg (Ne.symm hne), if_neg (hout z (List.mem_append_left _ hz))]
            · intro z hz
              rw [hprev', if_neg fun hs : l₂.head? = some z =>
                hdisjoint z hz (List.mem_of_mem_head? hs),
                if_neg (hout z (List.mem_append_left _ hz))]
            · intro z hz
              rw [hnext', if_neg fun hs : l₁.getLast? = some z =>
                hdisjoint z (List.mem_of_getLast? hs) hz, if_neg (hout z (hmem₂ z hz))]
            · intro z hz
              have hz₂ := List.mem_of_mem_tail hz
              rw [hprev', if_neg, if_neg (hout z (hmem₂ z hz₂))]
              intro hs
              have hnodup₂ := hnodup'.of_append_right
              cases l₂ with
              | nil => cases hs
              | cons m l =>
                obtain rfl := Option.some_inj.mp hs
                exact (List.nodup_cons.mp hnodup₂).1 hz
            · intro z hz
              rw [hnext', if_pos hz]
              rfl
            · intro z hz
              rw [hprev', if_pos hz, List.getLast?_concat]
            · refine ⟨⟨?_, ?_⟩, linked_nil⟩
              · rw [hprev', if_neg fun hs : l₂.head? = some (.home slot) =>
                  hout _ (hmem₂ _ (List.mem_of_mem_head? hs)) rfl, if_pos rfl, hprev]
              · rw [hnext', if_neg fun hs : l₁.getLast? = some (.home slot) =>
                  hout _ (List.mem_append_left _ (List.mem_of_getLast? hs)) rfl, if_pos rfl, hnext]
                rfl
          have hback : l₁ ++ Ref.home slot :: l₂ = l₁ ++ [.home slot] ++ l₂ := by
            rw [List.append_assoc]
            rfl
          rw [hback]
          exact hspliced
        · have hnew : Ref.home slot ∉ l₁ ++ l₂ := by
            intro hmem
            refine hout (.home slot) ?_ rfl
            rcases List.mem_append.mp hmem with hm | hm
            · exact List.mem_append_left _ hm
            · exact List.mem_append_right _ (List.mem_cons_of_mem _ hm)
          rw [List.nodup_middle] at hnodup ⊢
          exact List.nodup_cons.mpr ⟨hnew, (List.nodup_cons.mp hnodup).2⟩
        · show (t₃.client c).firstContext = _
          rw [hclient]
        · show (t₃.client c).lastContext = _
          rw [hclient]
        · show (t₃.client c).count = _
          rw [(hdata c).2.2.2, hlist.count, hsplit, List.length_append, List.length_append]
          rfl
      · rw [Function.update_of_ne hdc]
        have hold := hl.list d hd'
        have houtd : ∀ z ∈ lists d, z ∉ l₁ ++ n :: l₂ ∧ z ≠ .home slot := by
          intro z hz
          obtain ⟨hHz, hpz⟩ := (hl.mem d hd' z).mp hz
          constructor
          · intro hz'
            rw [← hsplit] at hz'
            exact hdc (hpz.symm.trans ((hl.mem c hknown z).mp hz').2)
          · rintro rfl
            exact hhome hHz
        have hsame : t₃.client d = t.client d := hother d hdc
        refine ⟨hold.linked.congr ?_ ?_, hold.nodup, ?_, ?_, ?_⟩
        · intro z hz
          show t₃.nextIn z = _
          rw [hnext', if_neg fun hs : l₁.getLast? = some z =>
            (houtd z hz).1 (List.mem_append_left _ (List.mem_of_getLast? hs)),
            if_neg (houtd z hz).2]
        · intro z hz
          show t₃.prevIn z = _
          rw [hprev', if_neg fun hs : l₂.head? = some z =>
            (houtd z hz).1 (List.mem_append_right _ (List.mem_cons_of_mem _
              (List.mem_of_mem_head? hs))), if_neg (houtd z hz).2]
        · show (t₃.client d).firstContext = _
          rw [hsame]
          exact hold.first
        · show (t₃.client d).lastContext = _
          rw [hsame]
          exact hold.last
        · show (t₃.client d).count = _
          rw [hsame]
          exact hold.count
    · intro d hd z
      have hd' := (hknown' d).mp hd
      show _ ↔ (z = .home slot ∨ H z ∧ z ≠ n) ∧ (t₃.context z).pClientEntry = d
      rw [hpClient]
      by_cases hz : z = .home slot
      · subst hz
        rw [if_pos rfl]
        by_cases hdc : d = c
        · rw [hdc, Function.update_self]
          exact ⟨fun _ => ⟨Or.inl rfl, rfl⟩, fun _ =>
            List.mem_append_right _ List.mem_cons_self⟩
        · rw [Function.update_of_ne hdc, hl.mem d hd']
          exact ⟨fun hm => absurd hm.1 hhome, fun hm => absurd hm.2.symm hdc⟩
      · rw [if_neg hz]
        by_cases hdc : d = c
        · rw [hdc, Function.update_self]
          have hmem := hl.mem c hknown z
          rw [hsplit, List.mem_append, List.mem_cons] at hmem
          rw [List.mem_append, List.mem_cons]
          have hnot : z ∈ l₁ ∨ z ∈ l₂ → z ≠ n := by
            rintro hm rfl
            rw [List.nodup_middle, List.nodup_cons, List.mem_append] at hnodup
            exact hnodup.1 hm
          constructor
          · rintro (hm | hm | hm)
            · exact ⟨Or.inr ⟨(hmem.mp (Or.inl hm)).1, hnot (Or.inl hm)⟩, (hmem.mp (Or.inl hm)).2⟩
            · exact absurd hm hz
            · have hm' := hmem.mp (Or.inr (Or.inr hm))
              exact ⟨Or.inr ⟨hm'.1, hnot (Or.inr hm)⟩, hm'.2⟩
          · rintro ⟨hm | ⟨hHz, hne⟩, hpz⟩
            · exact absurd hm hz
            · rcases hmem.mpr ⟨hHz, hpz⟩ with hm | hm | hm
              · exact Or.inl hm
              · exact absurd hm hne
              · exact Or.inr (Or.inr hm)
        · rw [Function.update_of_ne hdc, hl.mem d hd']
          constructor
          · rintro ⟨hHz, hpz⟩
            refine ⟨Or.inr ⟨hHz, ?_⟩, hpz⟩
            rintro rfl
            exact hdc hpz.symm
          · rintro ⟨hm | ⟨hHz, -⟩, hpz⟩
            · exact absurd hm hz
            · exact ⟨hHz, hpz⟩
    · intro z hz
      show Known _ (t₃.context z).pClientEntry ∧ Function.update t₃.contextFreed n true z = false
      rw [hpClient, hknown', hframe.contextFreed]
      rcases hz with rfl | ⟨hHz, hne⟩
      · rw [if_pos rfl, Function.update_of_ne hnhome.symm]
        exact ⟨hknown, hhomefree⟩
      · have hz' : z ≠ .home slot := by
          rintro rfl
          exact hhome hHz
        rw [if_neg hz', Function.update_of_ne hne]
        exact hl.known z hHz
  · show (t₃.context y).uuid = _
    rw [hframe.uuid, hctx₁]
    split <;> rfl
  · show Function.update t₃.contextChain slot rest = _
    rw [hframe.contextChain]
    rfl
  · show Function.update t₃.contextFreed n true = _
    rw [hframe.contextFreed]
    rfl

end Tables

end Ctx

end Idl
