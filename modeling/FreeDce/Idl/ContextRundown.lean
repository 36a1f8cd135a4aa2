/-
Managers enter and leave, and the contexts of a client are run down.

* `refCountI2_known`, `refCountI2_new`, `refCountD2_known` — the reference count of a client's entry;
* `rundownContexts_spec` — the loop that destroys the contexts of a client ends with the last one;
* `rundownEntry_spec` — an entry that no manager uses goes, with all its contexts.
-/
import FreeDce.Idl.ContextCreate

namespace Idl

namespace Ctx

open Pointers

namespace Tables

variable {t t' : Tables} {uuidHash : ℕ → Fin 256} {c x : Ref} {uuid id : ℕ}

/-! ### The entry of a client changes -/

/-- The entry of a client changes, but neither its list nor its client. -/
theorem Ok.setClient (h : t.Ok uuidHash) {f : ClientEntry → ClientEntry}
    (hf : ∀ ce, (f ce).client = ce.client ∧ (f ce).firstContext = ce.firstContext ∧
      (f ce).lastContext = ce.lastContext ∧ (f ce).count = ce.count) :
    (t.setClient c f).Ok uuidHash ∧ (∀ d, (t.setClient c f).Known d ↔ t.Known d) ∧
      ∀ u, (t.setClient c f).Has u ↔ t.Has u := by
  obtain ⟨ho, hc, lists, hl⟩ := h
  have hdata : ∀ d, ((t.setClient c f).client d).client = (t.client d).client ∧
      ((t.setClient c f).client d).firstContext = (t.client d).firstContext ∧
      ((t.setClient c f).client d).lastContext = (t.client d).lastContext ∧
      ((t.setClient c f).client d).count = (t.client d).count := by
    intro d
    rw [client_setClient]
    split
    · rename_i hd
      rw [hd]
      exact hf _
    · exact ⟨rfl, rfl, rfl, rfl⟩
  obtain ⟨ho', hheld, hhas⟩ := ho.congr (t.setClient c f) (fun _ => rfl) rfl rfl rfl
  obtain ⟨hc', hknown⟩ := hc.congr (t.setClient c f) (fun d => (hdata d).1) rfl rfl rfl
  refine ⟨⟨ho', hc', lists, ?_⟩, hknown, hhas⟩
  exact hl.congr (fun d => (hdata d).2) hknown (fun _ _ => ⟨rfl, rfl, rfl, rfl⟩) hheld

/-- An entry without contexts is removed. -/
theorem Ok.removeClientEntry (h : t.Ok uuidHash) (hknown : t.Known c)
    (hcount : (t.client c).count = 0) :
    ∃ t', t.removeClientEntry c = some t' ∧ t'.Ok uuidHash ∧
      (∀ d, t'.Known d ↔ t.Known d ∧ d ≠ c) ∧ (∀ d ≠ c, t'.client d = t.client d) ∧
      ∀ u, t'.Has u ↔ t.Has u := by
  obtain ⟨ho, hc, lists, hl⟩ := h
  have hnil : lists c = [] := by
    have hlength := (hl.list c hknown).count
    rw [hcount] at hlength
    exact List.length_eq_zero_iff.mp (by exact_mod_cast hlength.symm)
  obtain ⟨t', hrun, hc', hknown', hother, hcontext, hchain, hfreed, hheap⟩ :=
    removeClientEntry_spec hc hknown
  obtain ⟨ho', hheld, hhas⟩ := ho.congr t' (fun y => by rw [hcontext]) hchain hfreed hheap
  refine ⟨t', hrun, ⟨ho', hc', lists, fun d hd => ?_, fun d hd y => ?_, fun y hy => ?_⟩, hknown',
    hother, hhas⟩
  · obtain ⟨hd, hne⟩ := (hknown' d).mp hd
    have hold := hl.list d hd
    refine ⟨hold.linked.congr (fun y _ => ?_) fun y _ => ?_, hold.nodup, ?_, ?_, ?_⟩
    · rw [nextIn, nextIn, hcontext]
    · rw [prevIn, prevIn, hcontext]
    · rw [hother d hne]
      exact hold.first
    · rw [hother d hne]
      exact hold.last
    · rw [hother d hne]
      exact hold.count
  · obtain ⟨hd, -⟩ := (hknown' d).mp hd
    rw [hl.mem d hd y, hheld, hcontext]
  · have hy' := (hheld y).mp hy
    obtain ⟨hk, hf⟩ := hl.known y hy'
    rw [hcontext, hfreed]
    refine ⟨(hknown' _).mpr ⟨hk, fun heq => ?_⟩, hf⟩
    -- a context of this client would be on its list
    have hmem := (hl.mem c hknown y).mpr ⟨hy', heq⟩
    rw [hnil] at hmem
    exact List.not_mem_nil hmem

/-! ### Managers -/

theorem refCountI2_known (h : t.Ok uuidHash) (hknown : t.Known c) :
    t.refCountI2 (t.client c).client
      = some (t.setClient c fun ce => { ce with refCount := ce.refCount + 1 }) := by
  rw [refCountI2, findClient_eq h.clients hknown]
  exact writeClient_eq (h.clients.not_freed hknown) _

/-- The new client's entry is the only one with its id. -/
theorem newClient_inj (hc : t.ClientsOk) (habsent : ∀ d, t.Known d → (t.client d).client ≠ id)
    {e : ClientEntry} (he : e.client = id) (hknown : ∀ d, t'.Known d ↔ t.Known d ∨ d = c)
    (hclient : ∀ d, t'.client d = if d = c then e else t.client d) (d d' : Ref) (hd : t'.Known d)
    (hd' : t'.Known d') (heq : (t'.client d).client = (t'.client d').client) : d = d' := by
  rw [hclient, hclient] at heq
  by_cases hdc : d = c
  · by_cases hdc' : d' = c
    · rw [hdc, hdc']
    · rw [if_pos hdc, if_neg hdc', he] at heq
      exact absurd heq.symm (habsent d' (((hknown d').mp hd').resolve_right hdc'))
  · have hk := ((hknown d).mp hd).resolve_right hdc
    by_cases hdc' : d' = c
    · rw [if_neg hdc, if_pos hdc', he] at heq
      exact absurd heq (habsent d hk)
    · rw [if_neg hdc, if_neg hdc'] at heq
      exact hc.inj d d' hk (((hknown d').mp hd').resolve_right hdc') heq

/-- The place of a new client is filled. -/
theorem newClient_spec (hc : t.ClientsOk) (h0 : id ≠ 0)
    (habsent : ∀ d, t.Known d → (t.client d).client ≠ id) {e : ClientEntry} (he : e.client = id) :
    ∃ t₁ c, t.newClient id = (t₁, c) ∧ t₁.clientFreed c = false ∧ ¬ t.Known c ∧
      (t₁.setClient c fun _ => e).ClientsOk ∧
      (∀ d, (t₁.setClient c fun _ => e).Known d ↔ t.Known d ∨ d = c) ∧
      (∀ d, (t₁.setClient c fun _ => e).client d = if d = c then e else t.client d) ∧
      t₁.context = t.context ∧ t₁.contextChain = t.contextChain ∧
      t₁.contextFreed = t.contextFreed ∧ t.nextHeap ≤ t₁.nextHeap := by
  by_cases hhome : (t.client (.home (hashClientId id))).client = 0
  · rw [newClient, if_pos hhome]
    set c := Ref.home (hashClientId id) with hcdef
    have hclient : ∀ d, (t.setClient c fun _ => e).client d = if d = c then e else t.client d :=
      fun d => client_setClient _ _ _
    have hnot : ¬ t.Known c := fun hk => hk hhome
    have hknown : ∀ d, (t.setClient c fun _ => e).Known d ↔ t.Known d ∨ d = c := by
      intro d
      cases d with
      | home i =>
        rw [Known, hclient]
        by_cases hi : Ref.home i = c
        · rw [if_pos hi, he]
          exact iff_of_true h0 (Or.inr hi)
        · rw [if_neg hi, or_iff_left hi]
          rfl
      | heap n => exact (or_iff_left (Ref.home_ne_heap _ n).symm).symm
    have hheap : ∀ i, ∀ d ∈ t.clientChain i, d ≠ c := by
      rintro i d hd rfl
      obtain ⟨-, n, -, heq⟩ := hc.heap i _ hd
      rw [hcdef] at heq
      cases heq
    refine ⟨t, c, rfl, hc.home _, hnot, ⟨hc.home, hc.heap, fun i hne => ?_, fun i d hd => ?_,
      hc.nodup, fun d d' hd hd' heq => ?_⟩, hknown, hclient, rfl, rfl, rfl, le_rfl⟩
    · rw [hclient] at hne ⊢
      by_cases hi : Ref.home i = c
      · rw [if_pos hi, he]
        exact (Ref.home.inj hi).symm
      · rw [if_neg hi] at hne ⊢
        exact hc.hash_home i hne
    · rw [hclient, if_neg (hheap i d hd)]
      exact hc.hash i d hd
    · exact newClient_inj hc habsent he hknown hclient d d' hd hd' heq
  · rw [newClient, if_neg hhome]
    set c := Ref.heap t.nextHeap with hcdef
    set slot := hashClientId id with hslot
    have hhome' : ∀ i, Ref.home i ≠ c := fun i => Ref.home_ne_heap i _
    have hnew : ∀ i, c ∉ t.clientChain i := by
      intro i hmem
      obtain ⟨-, n, hn, heq⟩ := hc.heap i c hmem
      exact absurd (Ref.heap.inj heq) hn.ne'
    set t₁ : Tables := { t with
      clientChain := Function.update t.clientChain slot (t.clientChain slot ++ [c])
      clientFreed := Function.update t.clientFreed c false
      nextHeap := t.nextHeap + 1 } with ht₁
    have hclient : ∀ d, (t₁.setClient c fun _ => e).client d = if d = c then e else t.client d :=
      fun d => client_setClient _ _ _
    have hmem : ∀ i d, d ∈ (t₁.setClient c fun _ => e).clientChain i ↔
        d ∈ t.clientChain i ∨ d = c ∧ i = slot := by
      intro i d
      show d ∈ Function.update t.clientChain slot (t.clientChain slot ++ [c]) i ↔ _
      by_cases hi : i = slot
      · rw [hi, Function.update_self, List.mem_append, List.mem_singleton, and_iff_left rfl]
      · rw [Function.update_of_ne hi]
        exact ⟨Or.inl, fun hd => hd.resolve_right fun hd => hi hd.2⟩
    have hnot : ¬ t.Known c := by
      rintro ⟨i, hi⟩
      exact hnew i hi
    have hknown : ∀ d, (t₁.setClient c fun _ => e).Known d ↔ t.Known d ∨ d = c := by
      intro d
      cases d with
      | home i =>
        rw [Known, hclient, if_neg (hhome' i)]
        exact (or_iff_left (hhome' i)).symm
      | heap n =>
        constructor
        · rintro ⟨i, hi⟩
          exact ((hmem i _).mp hi).imp (fun hi => ⟨i, hi⟩) And.left
        · rintro (⟨i, hi⟩ | hd)
          · exact ⟨i, (hmem i _).mpr (Or.inl hi)⟩
          · exact ⟨slot, (hmem slot _).mpr (Or.inr ⟨hd, rfl⟩)⟩
    have hold : ∀ i, ∀ d ∈ t.clientChain i, d ≠ c := by
      rintro i d hd rfl
      exact hnew i hd
    refine ⟨t₁, c, rfl, Function.update_self _ _ _, hnot, ⟨fun i => ?_, fun i d hd => ?_,
      fun i hne => ?_, fun i d hd => ?_, fun i => ?_, fun d d' hd hd' heq => ?_⟩, hknown, hclient, rfl,
      rfl, rfl, Nat.le_succ _⟩
    · exact (Function.update_of_ne (hhome' i) false t.clientFreed).trans (hc.home i)
    · rcases (hmem i d).mp hd with hd | ⟨rfl, -⟩
      · obtain ⟨hfreed, n, hn, heq⟩ := hc.heap i d hd
        refine ⟨?_, n, Nat.lt_succ_of_lt hn, heq⟩
        exact (Function.update_of_ne (hold i d hd) false t.clientFreed).trans hfreed
      · exact ⟨Function.update_self _ _ _, t.nextHeap, Nat.lt_succ_self _, rfl⟩
    · rw [hclient, if_neg (hhome' i)] at hne ⊢
      exact hc.hash_home i hne
    · rw [hclient]
      rcases (hmem i d).mp hd with hd | ⟨rfl, rfl⟩
      · rw [if_neg (hold i d hd)]
        exact hc.hash i d hd
      · rw [if_pos rfl, he]
        exact ⟨h0, rfl⟩
    · show (Function.update t.clientChain slot (t.clientChain slot ++ [c]) i).Nodup
      by_cases hi : i = slot
      · rw [hi, Function.update_self, List.nodup_append]
        refine ⟨hc.nodup slot, List.nodup_singleton c, ?_⟩
        intro a ha b hb heq
        rw [List.mem_singleton] at hb
        rw [heq, hb] at ha
        exact hnew slot ha
      · rw [Function.update_of_ne hi]
        exact hc.nodup i
    · exact newClient_inj hc habsent he hknown hclient d d' hd hd' heq

/-- A manager of a client without an entry enters. -/
theorem refCountI2_new (h : t.Ok uuidHash) (h0 : id ≠ 0)
    (habsent : ∀ d, t.Known d → (t.client d).client ≠ id) :
    ∃ t' c, t.refCountI2 id = some t' ∧ t'.Ok uuidHash ∧ ¬ t.Known c ∧
      (∀ d, t'.Known d ↔ t.Known d ∨ d = c) ∧
      (∀ d, t'.client d = if d = c then { client := id, refCount := 1 } else t.client d) ∧
      ∀ u, t'.Has u ↔ t.Has u := by
  obtain ⟨ho, hc, lists, hl⟩ := h
  obtain ⟨t₁, c, hplace, hfreed, hnot, hc', hknown, hclient, hcontext, hchain, hcfreed, hheap⟩ :=
    newClient_spec hc h0 habsent (e := { client := id, refCount := 1 }) rfl
  set t' := t₁.setClient c fun _ => { client := id, refCount := 1 } with ht'
  have hctx : t'.context = t.context := hcontext
  have hheld : ∀ y, t'.Held y ↔ t.Held y := by
    intro y
    cases y with
    | home i => rw [Held, Held, hctx]
    | heap n =>
      show (∃ i, Ref.heap n ∈ t₁.contextChain i) ↔ _
      rw [hchain]
      rfl
  have hhas : ∀ u, t'.Has u ↔ t.Has u := by
    intro u
    rw [Has, Has, hctx]
    exact exists_congr fun y => and_congr_left fun _ => hheld y
  have ho' : t'.ContextsOk uuidHash := by
    have hchain' : t'.contextChain = t.contextChain := hchain
    have hfreed' : t'.contextFreed = t.contextFreed := hcfreed
    refine ⟨fun i => ?_, fun i y hy => ?_, fun i hi => ?_, fun i hi => ?_, fun i y hy => ?_,
      fun i => ?_, fun y z hy hz heq => ?_⟩
    · rw [hfreed']
      exact ho.home i
    · rw [hchain'] at hy
      rw [hfreed']
      obtain ⟨hf, n, hn, heq⟩ := ho.heap i y hy
      exact ⟨hf, n, hn.trans_le hheap, heq⟩
    · rw [hctx] at hi
      rw [hchain']
      exact ho.empty i hi
    · rw [hctx] at hi ⊢
      exact ho.hash_home i hi
    · rw [hchain'] at hy
      rw [hctx]
      exact ho.hash i y hy
    · rw [hchain']
      exact ho.nodup i
    · rw [hctx] at heq
      exact ho.inj y z ((hheld y).mp hy) ((hheld z).mp hz) heq
  refine ⟨t', c, ?_, ⟨ho', hc', Function.update lists c [], ?_⟩, hnot, hknown, hclient, hhas⟩
  · rw [refCountI2, findClient_absent hc h0 habsent]
    show t.addToCalleeClient id none = _
    rw [addToCalleeClient, findClient_absent hc h0 habsent, hplace]
    exact writeClient_eq hfreed _
  · have hne : ∀ y, t.Held y → (t.context y).pClientEntry ≠ c := by
      rintro y hy rfl
      exact hnot (hl.known y hy).1
    refine ⟨fun d hd => ?_, fun d hd y => ?_, fun y hy => ?_⟩
    · by_cases hdc : d = c
      · rw [hdc, Function.update_self]
        refine ⟨linked_nil, List.nodup_nil, ?_, ?_, ?_⟩
        · rw [hclient, if_pos rfl]
          rfl
        · rw [hclient, if_pos rfl]
          rfl
        · rw [hclient, if_pos rfl]
          rfl
      · rw [Function.update_of_ne hdc]
        have hold := hl.list d (((hknown d).mp hd).resolve_right hdc)
        have hsame : t'.client d = t.client d := (hclient d).trans (if_neg hdc)
        refine ⟨hold.linked.congr (fun y _ => ?_) fun y _ => ?_, hold.nodup, ?_, ?_, ?_⟩
        · rw [nextIn, nextIn, hctx]
        · rw [prevIn, prevIn, hctx]
        · rw [hsame]
          exact hold.first
        · rw [hsame]
          exact hold.last
        · rw [hsame]
          exact hold.count
    · rw [hheld, hctx]
      by_cases hdc : d = c
      · rw [hdc, Function.update_self]
        exact iff_of_false List.not_mem_nil fun hy => hne y hy.1 hy.2
      · rw [Function.update_of_ne hdc]
        exact hl.mem d (((hknown d).mp hd).resolve_right hdc) y
    · have hy' := (hheld y).mp hy
      obtain ⟨hk, hf⟩ := hl.known y hy'
      rw [hctx]
      refine ⟨(hknown _).mpr (Or.inl hk), ?_⟩
      show t₁.contextFreed y = false
      rw [hcfreed]
      exact hf

/-- A manager leaves: an entry that is not used any more and has no contexts goes. -/
theorem refCountD2_known (h : t.Ok uuidHash) (hknown : t.Known c) :
    ∃ t', t.refCountD2 (t.client c).client = some t' ∧ t'.Ok uuidHash ∧
      (∀ d, t'.Known d → t.Known d) ∧
      (∀ d, t.Known d → ¬ t'.Known d → d = c ∧ (t.client c).rundownPending = false) ∧
      (∀ d, t'.Known d → t'.client d =
        if d = c then { t.client c with refCount := (t.client c).refCount - 1 } else t.client d) ∧
      ∀ u, t'.Has u ↔ t.Has u := by
  obtain ⟨h₁, hknown₁, hhas₁⟩ := h.setClient (c := c)
    (f := fun ce => { ce with refCount := ce.refCount - 1 }) fun _ => ⟨rfl, rfl, rfl, rfl⟩
  have hfreed := h.clients.not_freed hknown
  set t₁ := t.setClient c fun ce => { ce with refCount := ce.refCount - 1 } with ht₁
  have hclient : ∀ d, t₁.client d =
      if d = c then { t.client c with refCount := (t.client c).refCount - 1 } else t.client d :=
    fun d => client_setClient _ _ _
  have hself : t₁.client c = { t.client c with refCount := (t.client c).refCount - 1 } :=
    (hclient c).trans (if_pos rfl)
  have hrun : t.refCountD2 (t.client c).client = if (t.client c).rundownPending then some t₁
      else if (t.client c).count = 0 ∧ (t.client c).refCount - 1 = 0 then t₁.removeClientEntry c
      else some t₁ := by
    rw [refCountD2, findClient_eq h.clients hknown]
    show (t.writeClient c _).bind _ = _
    rw [writeClient_eq hfreed, Option.bind_some]
    show (t₁.readClient c).bind _ = _
    rw [readClient_eq (show t₁.clientFreed c = false from hfreed), Option.bind_some, hself]
  rw [hrun]
  by_cases hpending : (t.client c).rundownPending = true
  · rw [if_pos hpending]
    exact ⟨t₁, rfl, h₁, fun d => (hknown₁ d).mp, fun d hd hn => absurd ((hknown₁ d).mpr hd) hn,
      fun d _ => hclient d, hhas₁⟩
  · rw [if_neg hpending]
    by_cases hzero : (t.client c).count = 0 ∧ (t.client c).refCount - 1 = 0
    · rw [if_pos hzero]
      obtain ⟨t₂, hremove, h₂, hknown₂, hother₂, hhas₂⟩ := h₁.removeClientEntry
        ((hknown₁ c).mpr hknown) (by rw [hself]; exact hzero.1)
      refine ⟨t₂, hremove, h₂, fun d hd => (hknown₁ d).mp ((hknown₂ d).mp hd).1, fun d hd hn => ?_,
        fun d hd => ?_, fun u => (hhas₂ u).trans (hhas₁ u)⟩
      · refine ⟨by_contra fun hne => hn ((hknown₂ d).mpr ⟨(hknown₁ d).mpr hd, hne⟩), ?_⟩
        rwa [Bool.not_eq_true] at hpending
      · rw [hother₂ d ((hknown₂ d).mp hd).2]
        exact hclient d
    · rw [if_neg hzero]
      exact ⟨t₁, rfl, h₁, fun d => (hknown₁ d).mp, fun d hd hn => absurd ((hknown₁ d).mpr hd) hn,
        fun d _ => hclient d, hhas₁⟩

/-- The local form of a context changes, if the context is in the table. -/
theorem updateCalleeContext_spec (h : t.Ok uuidHash) (uuid userContext : ℕ) :
    ∃ t', t.updateCalleeContext uuidHash uuid userContext = some t' ∧ t'.Ok uuidHash ∧
      (∀ d, t'.Known d ↔ t.Known d) ∧ t'.client = t.client ∧ ∀ u, t'.Has u ↔ t.Has u := by
  obtain ⟨ho, hc, lists, hl⟩ := h
  have hlive : ∀ y ∈ Ref.home (uuidHash uuid) :: t.contextChain (uuidHash uuid),
      t.contextFreed y = false := by
    intro y hy
    rcases List.mem_cons.mp hy with rfl | hy
    · exact ho.home _
    · exact (ho.heap _ y hy).1
  rw [updateCalleeContext, walkContexts_eq hlive]
  cases hfound : (Ref.home (uuidHash uuid) :: t.contextChain (uuidHash uuid)).find?
      fun y => (t.context y).uuid = uuid with
  | none =>
    exact ⟨t, rfl, ⟨ho, hc, lists, hl⟩, fun _ => Iff.rfl, rfl, fun _ => Iff.rfl⟩
  | some x =>
    have hx := hlive x (List.mem_of_find?_eq_some hfound)
    show ∃ t', t.writeContext x (fun e => { e with userContext := userContext }) = some t' ∧ _
    rw [writeContext_eq hx]
    set t' := t.setContext x fun e => { e with userContext := userContext } with ht'
    have hcontext : ∀ y, t'.context y
        = if y = x then { t.context x with userContext := userContext } else t.context y :=
      fun y => context_setContext _ _ _
    have hdata : ∀ y, (t'.context y).uuid = (t.context y).uuid ∧ t'.nextIn y = t.nextIn y ∧
        t'.prevIn y = t.prevIn y ∧ (t'.context y).pClientEntry = (t.context y).pClientEntry := by
      intro y
      rw [nextIn, nextIn, prevIn, prevIn, hcontext]
      split
      · rename_i hy
        rw [hy]
        exact ⟨rfl, rfl, rfl, rfl⟩
      · exact ⟨rfl, rfl, rfl, rfl⟩
    obtain ⟨ho', hheld, hhas⟩ := ho.congr t' (fun y => (hdata y).1) rfl rfl rfl
    obtain ⟨hc', hknown⟩ := hc.congr t' (fun _ => rfl) rfl rfl rfl
    refine ⟨t', rfl, ⟨ho', hc', lists, ?_⟩, hknown, rfl, hhas⟩
    exact hl.congr (fun _ => ⟨rfl, rfl, rfl⟩) hknown
      (fun y _ => ⟨(hdata y).2.1, (hdata y).2.2.1, (hdata y).2.2.2, rfl⟩) hheld

/-! ### The rundown of a client -/

/-- One round of the loop destroys the first context of the client. -/
theorem rundownContexts_step (n : ℕ) (h : t.Ok uuidHash) (hknown : t.Known c)
    (hcount : (t.client c).count = (n : ℤ) + 1) :
    ∃ x t₁, t.Held x ∧
      rundownContexts uuidHash (n + 1) t c =
        (if (if (t.client c).count = 1 then (t.client c).client else 0) = 0 then
          (rundownContexts uuidHash n t₁ c).bind fun r => some (r.1, (t.context x).uuid :: r.2)
        else some (t₁, [(t.context x).uuid])) ∧
      t₁.Ok uuidHash ∧
      Taken t t₁ c (if (t.client c).count = 1 then (t.client c).client else 0) ∧
      ∀ u, u ≠ 0 → (t₁.Has u ↔ t.Has u ∧ u ≠ (t.context x).uuid) := by
  obtain ⟨lists, hl⟩ := h.lists
  have hlist := hl.list c hknown
  obtain ⟨x, l, hcons⟩ : ∃ x l, lists c = x :: l := by
    refine List.exists_cons_of_ne_nil fun hnil => ?_
    have hlength := hlist.count
    rw [hnil, hcount] at hlength
    simp only [List.length_nil, Nat.cast_zero] at hlength
    omega
  have hfirst : (t.client c).firstContext = some x := by
    rw [hlist.first, hcons]
    rfl
  obtain ⟨hheld, hclient⟩ := (hl.mem c hknown x).mp (hcons ▸ List.mem_cons_self)
  obtain ⟨t₁, close, hrun, hok₁, htaken, hhas⟩ := lkddestCalleeContext_spec h hheld
  rw [hclient] at htaken
  refine ⟨x, t₁, hheld, ?_, hok₁, htaken.close ▸ htaken, hhas⟩
  rw [rundownContexts, readClient_eq (h.clients.not_freed hknown)]
  show (t.client c).firstContext.bind _ = _
  rw [hfirst, Option.bind_some]
  show (t.readContext x).bind _ = _
  rw [readContext_eq (hl.known x hheld).2, Option.bind_some]
  show (t.lkddestCalleeContext uuidHash (t.context x).uuid).bind _ = _
  rw [hrun, Option.bind_some, ← htaken.close]
  rfl

/-- The loop destroys one context of the client after the other; its entry goes with the last. -/
theorem rundownContexts_spec (n : ℕ) (h : t.Ok uuidHash) (hknown : t.Known c)
    (hcount : (t.client c).count = (n : ℤ) + 1) (hpending : (t.client c).rundownPending = false) :
    ∃ t' uuids, rundownContexts uuidHash (n + 1) t c = some (t', uuids) ∧ t'.Ok uuidHash ∧
      (∀ d, t'.Known d ↔ t.Known d ∧ d ≠ c) ∧
      (∀ d, t'.Known d → (t'.client d).client = (t.client d).client ∧
        (t'.client d).refCount = (t.client d).refCount ∧
        (t'.client d).rundownPending = (t.client d).rundownPending) ∧
      uuids.Nodup ∧ (∀ u ∈ uuids, u ≠ 0 ∧ t.Has u) ∧
      ∀ u, u ≠ 0 → (t'.Has u ↔ t.Has u ∧ u ∉ uuids) := by
  induction n generalizing t with
  | zero =>
    obtain ⟨x, t₁, hheld, hrun, hok₁, htaken, hhas₁⟩ := rundownContexts_step 0 h hknown hcount
    have hone : (t.client c).count = 1 := by simpa using hcount
    rw [if_pos hone, if_neg (h.clients.client_ne hknown)] at hrun
    refine ⟨t₁, [(t.context x).uuid], hrun, hok₁, fun d => ?_, htaken.same, List.nodup_singleton _,
      fun u hu => ?_, fun u hu => ?_⟩
    · rw [htaken.known]
      exact and_congr_right fun _ => not_congr (and_iff_left ⟨hone, hpending⟩)
    · rw [List.mem_singleton] at hu
      rw [hu]
      exact ⟨h.contexts.uuid_ne hheld, x, hheld, rfl⟩
    · rw [hhas₁ u hu, List.mem_singleton]
  | succ n ih =>
    obtain ⟨x, t₁, hheld, hrun, hok₁, htaken, hhas₁⟩ := rundownContexts_step (n + 1) h hknown hcount
    have hmany : (t.client c).count ≠ 1 := by
      rw [hcount]
      push_cast
      omega
    rw [if_neg hmany, if_pos rfl] at hrun
    have hknown₁ : ∀ d, t₁.Known d ↔ t.Known d := by
      intro d
      rw [htaken.known]
      exact and_iff_left fun hd => hmany hd.2.1
    have hk₁ := (hknown₁ c).mpr hknown
    have hcount₁ : (t₁.client c).count = (n : ℤ) + 1 := by
      rw [htaken.count hk₁, hcount]
      push_cast
      ring
    obtain ⟨t₂, uuids, hloop, hok₂, hknown₂, hsame₂, hnodup, hmem, hhas₂⟩ := ih hok₁ hk₁ hcount₁
      ((htaken.same c hk₁).2.2.trans hpending)
    have hx0 := h.contexts.uuid_ne hheld
    rw [hloop] at hrun
    refine ⟨t₂, (t.context x).uuid :: uuids, hrun, hok₂, fun d => ?_, fun d hd => ?_, ?_,
      fun u hu => ?_, fun u hu => ?_⟩
    · rw [hknown₂, hknown₁]
    · obtain ⟨h₁, h₂, h₃⟩ := htaken.same d ((hknown₂ d).mp hd).1
      rw [← h₁, ← h₂, ← h₃]
      exact hsame₂ d hd
    · refine List.nodup_cons.mpr ⟨fun hu => ?_, hnodup⟩
      exact ((hhas₁ _ hx0).mp (hmem _ hu).2).2 rfl
    · rcases List.mem_cons.mp hu with rfl | hu
      · exact ⟨hx0, x, hheld, rfl⟩
      · obtain ⟨hu0, hhas⟩ := hmem u hu
        exact ⟨hu0, ((hhas₁ u hu0).mp hhas).1⟩
    · rw [hhas₂ u hu, hhas₁ u hu, List.mem_cons, not_or, and_assoc]

/-- An entry that no manager uses is run down; one on the heap may not have contexts. -/
theorem rundownEntry_spec (h : t.Ok uuidHash) (hknown : t.Known c)
    (hplace : (t.client c).count = 0 ∨ ∃ slot, c = .home slot) :
    ∃ t' uuids, t.rundownEntry uuidHash c = some (t', uuids) ∧ t'.Ok uuidHash ∧
      (∀ d, t'.Known d ↔ t.Known d ∧ d ≠ c) ∧
      (∀ d, t'.Known d → (t'.client d).client = (t.client d).client ∧
        (t'.client d).refCount = (t.client d).refCount ∧
        (t'.client d).rundownPending = (t.client d).rundownPending) ∧
      uuids.Nodup ∧ (∀ u ∈ uuids, u ≠ 0 ∧ t.Has u) ∧
      ∀ u, u ≠ 0 → (t'.Has u ↔ t.Has u ∧ u ∉ uuids) := by
  have hfreed := h.clients.not_freed hknown
  rw [rundownEntry, readClient_eq hfreed]
  show ∃ t' uuids, (if (t.client c).count = 0 then _ else _) = some (t', uuids) ∧ _
  by_cases hzero : (t.client c).count = 0
  · obtain ⟨t', hrun, hok, hknown', hother, hhas⟩ := h.removeClientEntry hknown hzero
    rw [if_pos hzero, hrun]
    refine ⟨t', [], rfl, hok, hknown', fun d hd => ?_, List.nodup_nil,
      fun u hu => absurd hu List.not_mem_nil, fun u _ => ?_⟩
    · rw [hother d ((hknown' d).mp hd).2]
      exact ⟨rfl, rfl, rfl⟩
    · rw [hhas, and_iff_left List.not_mem_nil]
  · obtain ⟨slot, rfl⟩ := hplace.resolve_left hzero
    obtain ⟨h₁, hknown₁, hhas₁⟩ := h.setClient (c := .home slot)
      (f := fun ce => { ce with rundownPending := false }) fun _ => ⟨rfl, rfl, rfl, rfl⟩
    set t₁ := t.setClient (.home slot) fun ce => { ce with rundownPending := false } with ht₁
    have hself : t₁.client (.home slot) = { t.client (.home slot) with rundownPending := false } :=
      (client_setClient _ _ _).trans (if_pos rfl)
    have hother : ∀ d ≠ Ref.home slot, t₁.client d = t.client d :=
      fun d hd => (client_setClient _ _ _).trans (if_neg hd)
    obtain ⟨lists, hl⟩ := h.lists
    have hlength := (hl.list _ hknown).count
    obtain ⟨n, hn⟩ := Nat.exists_eq_succ_of_ne_zero
      (fun h0 : (lists (.home slot)).length = 0 => hzero (by rw [hlength, h0]; rfl))
    have hcount : (t.client (.home slot)).count = (n : ℤ) + 1 := by
      rw [hlength, hn]
      push_cast
      rfl
    obtain ⟨t₂, uuids, hrun, hok₂, hknown₂, hsame₂, hnodup, hmem, hhas₂⟩ := rundownContexts_spec n h₁
      ((hknown₁ _).mpr hknown) (by rw [hself]; exact hcount) (by rw [hself])
    have hfuel : (t.client (.home slot)).count.toNat = n + 1 := by omega
    rw [if_neg hzero, writeClient_eq hfreed]
    show ∃ t' uuids, (rundownContexts uuidHash (t.client (.home slot)).count.toNat t₁
      (.home slot)).bind _ = some (t', uuids) ∧ _
    rw [hfuel, hrun, Option.bind_some]
    show ∃ t' uuids', (t₂.readClient (.home slot)).bind _ = some (t', uuids') ∧ _
    rw [readClient_eq (hok₂.clients.home slot)]
    refine ⟨t₂, uuids, rfl, hok₂, fun d => (hknown₂ d).trans (and_congr_left fun _ => hknown₁ d),
      fun d hd => ?_, hnodup, fun u hu => ⟨(hmem u hu).1, (hhas₁ u).mp (hmem u hu).2⟩, fun u hu => ?_⟩
    · have hd' := hsame₂ d hd
      rw [hother d ((hknown₂ d).mp hd).2] at hd'
      exact hd'
    · rw [hhas₂ u hu, hhas₁]

end Tables

end Ctx

end Idl
