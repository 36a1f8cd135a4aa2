/-
A context is created: it enters the table and comes last on the list of its client.

* `findClient_eq`, `findClient_absent` — the entry of a client is found;
* `linkContext_spec` — a context is put at the end of its client's list;
* `createCalleeContext_spec` — a context is created for a client that has an entry.
-/
import FreeDce.Idl.ContextDestroy

namespace Idl

namespace Ctx

open Pointers

namespace Tables

variable {t t' : Tables} {uuidHash : ℕ → Fin 256} {c x : Ref} {l : List Ref}
  {lists : Ref → List Ref} {H : Ref → Prop} {uuid id : ℕ}

/-! ### The entry of a client -/

theorem walkClients_eq (hl : ∀ c ∈ l, t.clientFreed c = false) :
    t.walkClients id l = some (l.find? fun c => (t.client c).client = id) := by
  induction l with
  | nil => rfl
  | cons c l ih =>
    rw [walkClients, readClient_eq (hl c List.mem_cons_self)]
    show (if (t.client c).client = id then some (some c) else t.walkClients id l) = _
    by_cases hc : (t.client c).client = id
    · rw [if_pos hc, List.find?_cons_of_pos (by simpa using hc)]
    · rw [if_neg hc, List.find?_cons_of_neg (by simpa using hc),
        ih fun d hd => hl d (List.mem_cons_of_mem _ hd)]

theorem ClientsOk.findClient (h : t.ClientsOk) (id : ℕ) :
    t.findClient id = some ((.home (hashClientId id) :: t.clientChain (hashClientId id)).find?
      fun c => (t.client c).client = id) := by
  refine walkClients_eq ?_
  intro c hc
  rcases List.mem_cons.mp hc with rfl | hc
  · exact h.home _
  · exact (h.heap _ c hc).1

/-- What is found is the entry of the client. -/
theorem ClientsOk.known_of_mem (h : t.ClientsOk) (h0 : id ≠ 0) {slot : Fin 256}
    (hc : c ∈ Ref.home slot :: t.clientChain slot) (hid : (t.client c).client = id) : t.Known c := by
  rcases List.mem_cons.mp hc with rfl | hc
  · rw [Known, hid]
    exact h0
  · obtain ⟨-, n, -, rfl⟩ := h.heap slot c hc
    exact ⟨slot, hc⟩

theorem ClientsOk.mem_slot (h : t.ClientsOk) (hc : t.Known c) :
    c ∈ Ref.home (hashClientId (t.client c).client) ::
      t.clientChain (hashClientId (t.client c).client) := by
  cases c with
  | home slot =>
    rw [h.hash_home slot hc]
    exact List.mem_cons_self
  | heap n => exact List.mem_cons_of_mem _ (h.mem_chain hc)

theorem findClient_eq (h : t.ClientsOk) (hc : t.Known c) :
    t.findClient (t.client c).client = some (some c) := by
  rw [h.findClient]
  refine congrArg some ?_
  cases hfound : (Ref.home (hashClientId (t.client c).client) ::
      t.clientChain (hashClientId (t.client c).client)).find?
        fun d => (t.client d).client = (t.client c).client with
  | none =>
    rw [List.find?_eq_none] at hfound
    exact absurd (decide_eq_true rfl) (hfound c (h.mem_slot hc))
  | some d =>
    have hmem := List.mem_of_find?_eq_some hfound
    have heq := List.find?_some hfound
    rw [decide_eq_true_eq] at heq
    rw [h.inj d c (h.known_of_mem (h.client_ne hc) hmem heq) hc heq]

theorem findClient_absent (h : t.ClientsOk) (h0 : id ≠ 0)
    (habsent : ∀ c, t.Known c → (t.client c).client ≠ id) : t.findClient id = some none := by
  rw [h.findClient]
  refine congrArg some (List.find?_eq_none.mpr ?_)
  intro c hc heq
  rw [decide_eq_true_eq] at heq
  exact habsent c (h.known_of_mem h0 hc heq) heq

/-! ### A context is put on the list of its client -/

/-- The list is led to its new last context. -/
theorem link_first (hfreed : t.clientFreed c = false) (hlive : ∀ z ∈ l, t.contextFreed z = false)
    (hfirst : (t.client c).firstContext = l.head?) :
    ∃ t', (match l.head? with
        | none => t.writeClient c fun ce => { ce with firstContext := some x }
        | some _ => do
          let last ← l.getLast?
          t.writeContext last fun e => { e with nextInClient := some x }) = some t' ∧ Frame t t' ∧
      (∀ d ≠ c, t'.client d = t.client d) ∧
      t'.client c = { t.client c with firstContext := (l ++ [x]).head? } ∧
      (∀ z, t'.prevIn z = t.prevIn z) ∧
      (∀ z, t'.nextIn z = if l.getLast? = some z then some x else t.nextIn z) := by
  rcases List.eq_nil_or_concat' l with rfl | ⟨l, p, rfl⟩
  · show ∃ t', t.writeClient c _ = some t' ∧ _
    rw [writeClient_eq hfreed]
    refine ⟨_, rfl, frame_setClient c _, fun d hd => ?_, ?_, fun z => rfl, fun z => rfl⟩
    · rw [client_setClient, if_neg hd]
    · rw [client_setClient, if_pos rfl]
      rfl
  · have hp := hlive p (List.mem_append_right _ List.mem_cons_self)
    have hhead : ∃ y, (l ++ [p]).head? = some y ∧ (l ++ [p] ++ [x]).head? = some y := by
      cases l with
      | nil => exact ⟨p, rfl, rfl⟩
      | cons a l => exact ⟨a, rfl, rfl⟩
    obtain ⟨y, hy, hy'⟩ := hhead
    simp only [hy, List.getLast?_concat]
    show ∃ t', t.writeContext p (fun e => { e with nextInClient := some x }) = some t' ∧ _
    rw [writeContext_eq hp]
    refine ⟨_, rfl, frame_setContext p fun e => ⟨rfl, rfl⟩, fun d _ => rfl, ?_, fun z => ?_,
      fun z => ?_⟩
    · show t.client c = _
      rw [hy', ← hy, ← hfirst]
    · rw [prevIn, context_setContext]
      split
      · rename_i hz
        rw [hz]
        rfl
      · rfl
    · rw [nextIn, context_setContext]
      by_cases hz : z = p
      · rw [if_pos hz, if_pos (congrArg some hz.symm)]
      · rw [if_neg hz, if_neg fun hs => hz (Option.some_inj.mp hs).symm]
        rfl

/-- A context that is on no list is put at the end of its client's list. -/
theorem linkContext_spec (hc : t.ClientsOk) (hl : t.ListsOk lists H) (hknown : t.Known c)
    (hx : ¬ H x) (hxfreed : t.contextFreed x = false) :
    ∃ t' lists', t.linkContext c x = some t' ∧ t'.ListsOk lists' (fun y => H y ∨ y = x) ∧
      (∀ d, t'.client d = if d = c then { t.client c with
          count := (t.client c).count + 1
          firstContext := (t'.client c).firstContext
          lastContext := (t'.client c).lastContext } else t.client d) ∧
      (∀ y, (t'.context y).uuid = (t.context y).uuid) ∧
      t'.contextChain = t.contextChain ∧ t'.contextFreed = t.contextFreed ∧
      t'.clientChain = t.clientChain ∧ t'.clientFreed = t.clientFreed ∧
      t'.nextHeap = t.nextHeap := by
  have hfreed := hc.not_freed hknown
  have hlist := hl.list c hknown
  have hmem : ∀ z, z ∈ lists c ↔ H z ∧ (t.context z).pClientEntry = c := hl.mem c hknown
  have hxl : x ∉ lists c := fun hm => hx ((hmem x).mp hm).1
  -- the count goes up and the context is given its links
  set t₁ := t.setClient c fun ce => { ce with count := ce.count + 1 } with ht₁
  set t₂ := t₁.setContext x fun e =>
    { e with pClientEntry := c, prevInClient := (lists c).getLast?, nextInClient := none }
    with ht₂
  have hclient₂ : t₂.client c = { t.client c with count := (t.client c).count + 1 } := by
    show t₁.client c = _
    rw [ht₁, client_setClient, if_pos rfl]
  have hother₂ : ∀ d ≠ c, t₂.client d = t.client d := by
    intro d hd
    show t₁.client d = _
    rw [ht₁, client_setClient, if_neg hd]
  have hctx₂ : ∀ z, t₂.context z = if z = x then { t.context x with
      pClientEntry := c, prevInClient := (lists c).getLast?, nextInClient := none }
      else t.context z := fun z => context_setContext _ _ _
  have hlive : ∀ z ∈ lists c, t₂.contextFreed z = false :=
    fun z hz => (hl.known z ((hmem z).mp hz).1).2
  obtain ⟨t₃, hrun, hframe, hother₃, hself₃, hprev₃, hnext₃⟩ := link_first (t := t₂) (c := c)
    (x := x) hfreed hlive (by rw [hclient₂]; exact hlist.first)
  have hfreed₃ : t₃.clientFreed c = false := by
    rw [hframe.clientFreed]
    exact hfreed
  set t₄ := t₃.setClient c fun ce => { ce with lastContext := some x } with ht₄
  have hframe₄ : Frame t₂ t₄ := hframe.trans (frame_setClient c _)
  have hclient₄ : t₄.client c = { t.client c with
      count := (t.client c).count + 1
      firstContext := (lists c ++ [x]).head?
      lastContext := some x } := by
    refine (client_setClient c c _).trans ?_
    rw [if_pos rfl, hself₃, hclient₂]
  have hother₄ : ∀ d ≠ c, t₄.client d = t.client d := by
    intro d hd
    refine (client_setClient c d _).trans ?_
    rw [if_neg hd, hother₃ d hd, hother₂ d hd]
  have hprev : ∀ z, t₄.prevIn z = if z = x then (lists c).getLast? else t.prevIn z := by
    intro z
    refine (hprev₃ z).trans ?_
    rw [prevIn, hctx₂]
    split <;> rfl
  have hnext : ∀ z, t₄.nextIn z = if (lists c).getLast? = some z then some x
      else if z = x then none else t.nextIn z := by
    intro z
    refine (hnext₃ z).trans ?_
    refine congrArg (ite _ _) ?_
    rw [nextIn, hctx₂]
    split <;> rfl
  have hpClient : ∀ z, (t₄.context z).pClientEntry
      = if z = x then c else (t.context z).pClientEntry := by
    intro z
    rw [hframe₄.pClientEntry, hctx₂]
    split <;> rfl
  have hrunAll : t.linkContext c x = some t₄ := by
    rw [linkContext, readClient_eq hfreed]
    show (t.writeClient c _).bind _ = _
    rw [writeClient_eq hfreed, Option.bind_some]
    show (t₁.writeContext x _).bind _ = _
    rw [writeContext_eq (t := t₁) hxfreed, Option.bind_some, hlist.first, hlist.last]
    exact Option.bind_eq_some_iff.mpr ⟨t₃, hrun, writeClient_eq hfreed₃ _⟩
  have hknown₄ : ∀ d, t₄.Known d ↔ t.Known d := by
    refine (hc.congr t₄ (fun d => ?_) hframe₄.clientChain hframe₄.clientFreed
      hframe₄.nextHeap).2
    by_cases hd : d = c
    · rw [hd, hclient₄]
    · rw [hother₄ d hd]
  refine ⟨t₄, Function.update lists c (lists c ++ [x]), hrunAll, ⟨fun d hd => ?_, fun d hd z => ?_,
    fun z hz => ?_⟩, fun d => ?_, fun y => ?_, hframe₄.contextChain, hframe₄.contextFreed,
    hframe₄.clientChain, hframe₄.clientFreed, hframe₄.nextHeap⟩
  · have hd' := (hknown₄ d).mp hd
    by_cases hdc : d = c
    · subst hdc
      rw [Function.update_self]
      refine ⟨linked_append.mpr ⟨?_, ?_, linked_nil⟩, ?_, ?_, ?_, ?_⟩
      · refine hlist.linked.setNext hlist.nodup ?_ ?_ ?_
        · intro z hz
          rw [hprev, if_neg]
          rintro rfl
          exact hxl hz
        · intro z hz hne
          rw [hnext, if_neg (Ne.symm hne), if_neg]
          rintro rfl
          exact hxl hz
        · intro z hz
          rw [hnext, if_pos hz]
          rfl
      · rw [hprev, if_pos rfl, hnext, if_neg fun hs => hxl (List.mem_of_getLast? hs), if_pos rfl,
          Option.or_none]
        exact ⟨rfl, rfl⟩
      · rw [List.nodup_append]
        refine ⟨hlist.nodup, List.nodup_singleton x, ?_⟩
        intro a ha b hb heq
        rw [List.mem_singleton] at hb
        rw [heq, hb] at ha
        exact hxl ha
      · rw [hclient₄]
      · rw [hclient₄, List.getLast?_concat]
      · rw [hclient₄, List.length_append, List.length_singleton]
        show (t.client d).count + 1 = _
        rw [hlist.count]
        push_cast
        rfl
    · rw [Function.update_of_ne hdc]
      have hold := hl.list d hd'
      have hout : ∀ z ∈ lists d, z ≠ x ∧ z ∉ lists c := by
        intro z hz
        obtain ⟨hHz, hpz⟩ := (hl.mem d hd' z).mp hz
        constructor
        · rintro rfl
          exact hx hHz
        · intro hz'
          exact hdc (hpz.symm.trans ((hmem z).mp hz').2)
      refine ⟨hold.linked.congr (fun z hz => ?_) (fun z hz => ?_), hold.nodup, ?_, ?_, ?_⟩
      · rw [hnext, if_neg fun hs : (lists c).getLast? = some z =>
          (hout z hz).2 (List.mem_of_getLast? hs), if_neg (hout z hz).1]
      · rw [hprev, if_neg (hout z hz).1]
      · rw [hother₄ d hdc]
        exact hold.first
      · rw [hother₄ d hdc]
        exact hold.last
      · rw [hother₄ d hdc]
        exact hold.count
  · have hd' := (hknown₄ d).mp hd
    rw [hpClient]
    by_cases hz : z = x
    · subst hz
      rw [if_pos rfl]
      by_cases hdc : d = c
      · rw [hdc, Function.update_self]
        exact ⟨fun _ => ⟨Or.inr rfl, rfl⟩, fun _ => List.mem_append_right _ List.mem_cons_self⟩
      · rw [Function.update_of_ne hdc, hl.mem d hd']
        exact ⟨fun hm => absurd hm.1 hx, fun hm => absurd hm.2.symm hdc⟩
    · rw [if_neg hz]
      have hH : H z ∨ z = x ↔ H z := or_iff_left hz
      rw [hH]
      by_cases hdc : d = c
      · rw [hdc, Function.update_self, List.mem_append, List.mem_singleton, or_iff_left hz]
        exact hmem z
      · rw [Function.update_of_ne hdc]
        exact hl.mem d hd' z
  · rw [hpClient, hframe₄.contextFreed, hknown₄]
    by_cases hzx : z = x
    · rw [if_pos hzx, hzx]
      exact ⟨hknown, hxfreed⟩
    · rw [if_neg hzx]
      exact hl.known z (hz.resolve_right hzx)
  · by_cases hd : d = c
    · rw [if_pos hd, hd, hclient₄]
    · rw [if_neg hd, hother₄ d hd]
  · rw [hframe₄.uuid, hctx₂]
    split
    · rename_i hy
      rw [hy]
    · rfl

/-! ### A context is created -/

/-- The tables have the context `x` more. -/
structure Added (t t' : Tables) (x : Ref) (uuid : ℕ) : Prop where
  not_held : ¬ t.Held x
  held : ∀ y, t'.Held y ↔ t.Held y ∨ y = x
  context : ∀ y ≠ x, t'.context y = t.context y
  uuid : (t'.context x).uuid = uuid
  freed : t'.contextFreed x = false
  freed_ne : ∀ y ≠ x, t'.contextFreed y = t.contextFreed y
  client : t'.client = t.client
  clientChain : t'.clientChain = t.clientChain
  clientFreed : t'.clientFreed = t.clientFreed
  nextHeap : t.nextHeap ≤ t'.nextHeap

theorem Added.has (h : Added t t' x uuid) (u : ℕ) : t'.Has u ↔ t.Has u ∨ u = uuid := by
  constructor
  · rintro ⟨y, hy, rfl⟩
    by_cases hyx : y = x
    · rw [hyx]
      exact Or.inr h.uuid
    · rw [h.context y hyx]
      exact Or.inl ⟨y, ((h.held y).mp hy).resolve_right hyx, rfl⟩
  · rintro (⟨y, hy, rfl⟩ | rfl)
    · have hyx : y ≠ x := by
        rintro rfl
        exact h.not_held hy
      exact ⟨y, (h.held y).mpr (Or.inl hy), congrArg _ (h.context y hyx)⟩
    · exact ⟨x, (h.held x).mpr (Or.inr rfl), h.uuid⟩

/-- The clients stay as they are. -/
theorem Added.clients (h : Added t t' x uuid) (hc : t.ClientsOk) :
    t'.ClientsOk ∧ ∀ d, t'.Known d ↔ t.Known d := by
  have hknown : ∀ d, t'.Known d ↔ t.Known d := by
    intro d
    cases d with
    | home i => rw [Known, Known, h.client]
    | heap n => rw [Known, Known, h.clientChain]
  refine ⟨⟨fun i => ?_, fun i d hd => ?_, fun i hne => ?_, fun i d hd => ?_, fun i => ?_,
    fun d d' hd hd' heq => ?_⟩, hknown⟩
  · rw [h.clientFreed]
    exact hc.home i
  · rw [h.clientChain] at hd
    rw [h.clientFreed]
    obtain ⟨hfreed, n, hn, rfl⟩ := hc.heap i d hd
    exact ⟨hfreed, n, hn.trans_le h.nextHeap, rfl⟩
  · rw [h.client] at hne ⊢
    exact hc.hash_home i hne
  · rw [h.clientChain] at hd
    rw [h.client]
    exact hc.hash i d hd
  · rw [h.clientChain]
    exact hc.nodup i
  · rw [h.client] at heq
    exact hc.inj d d' ((hknown d).mp hd) ((hknown d').mp hd') heq

/-- A new context lies in its home slot or at the head of the chain behind it. -/
theorem ContextsOk.insert (h : t.ContextsOk uuidHash) (hadd : Added t t' x uuid) (h0 : uuid ≠ 0)
    (hfresh : ¬ t.Has uuid)
    (hplace : x = .home (uuidHash uuid) ∨ ∃ n < t'.nextHeap, x = .heap n)
    (hmem : ∀ i y, y ∈ t'.contextChain i → y ∈ t.contextChain i ∨
      (y = x ∧ x ≠ .home (uuidHash uuid) ∧ i = uuidHash uuid))
    (hnodup : ∀ i, (t'.contextChain i).Nodup)
    (hempty : ∀ i, (t'.context (.home i)).uuid = 0 → t'.contextChain i = []) :
    t'.ContextsOk uuidHash := by
  have hold : ∀ i, ∀ y ∈ t.contextChain i, y ≠ x := by
    rintro i y hy rfl
    exact hadd.not_held (h.held_of_mem hy)
  have hnew : ∀ y, t.Held y → (t.context y).uuid ≠ uuid := fun y hy heq => hfresh ⟨y, hy, heq⟩
  refine ⟨fun i => ?_, fun i y hy => ?_, hempty, fun i hne => ?_, fun i y hy => ?_, hnodup,
    fun y z hy hz heq => ?_⟩
  · by_cases hi : Ref.home i = x
    · rw [hi]
      exact hadd.freed
    · rw [hadd.freed_ne _ hi]
      exact h.home i
  · rcases hmem i y hy with hy | ⟨rfl, hne, -⟩
    · rw [hadd.freed_ne y (hold i y hy)]
      obtain ⟨hfreed, n, hn, rfl⟩ := h.heap i y hy
      exact ⟨hfreed, n, hn.trans_le hadd.nextHeap, rfl⟩
    · exact ⟨hadd.freed, hplace.resolve_left hne⟩
  · by_cases hi : Ref.home i = x
    · rw [hi, hadd.uuid]
      rcases hplace with hx | ⟨n, -, hx⟩
      · exact Ref.home.inj (hx.symm.trans hi.symm)
      · exact absurd (hi.trans hx) nofun
    · rw [hadd.context _ hi] at hne ⊢
      exact h.hash_home i hne
  · rcases hmem i y hy with hy | ⟨rfl, -, rfl⟩
    · rw [hadd.context y (hold i y hy)]
      exact h.hash i y hy
    · rw [hadd.uuid]
      exact ⟨h0, rfl⟩
  · by_cases hyx : y = x
    · by_cases hzx : z = x
      · rw [hyx, hzx]
      · rw [hyx, hadd.uuid, hadd.context z hzx] at heq
        exact absurd heq.symm (hnew z (((hadd.held z).mp hz).resolve_right hzx))
    · have hy' := ((hadd.held y).mp hy).resolve_right hyx
      by_cases hzx : z = x
      · rw [hzx, hadd.uuid, hadd.context y hyx] at heq
        exact absurd heq (hnew y hy')
      · rw [hadd.context y hyx, hadd.context z hzx] at heq
        exact h.inj y z hy' (((hadd.held z).mp hz).resolve_right hzx) heq

/-- The place of a new context is filled. -/
theorem newContext_spec (h : t.ContextsOk uuidHash) (h0 : uuid ≠ 0) (hfresh : ¬ t.Has uuid)
    (fill : ContextEntry → ContextEntry) (hfill : ∀ e, (fill e).uuid = uuid) :
    ∃ t₁ x, t.newContext (uuidHash uuid) = (t₁, x) ∧ t₁.contextFreed x = false ∧
      Added t (t₁.setContext x fill) x uuid ∧ (t₁.setContext x fill).ContextsOk uuidHash := by
  by_cases hhome : (t.context (.home (uuidHash uuid))).uuid = 0
  · have hnil := h.empty _ hhome
    have hchain : Function.update t.contextChain (uuidHash uuid) [] = t.contextChain := by
      rw [← hnil, Function.update_eq_self]
    rw [newContext, if_pos hhome, hchain]
    set x := Ref.home (uuidHash uuid) with hx
    have hctx : ∀ y, (t.setContext x fill).context y = if y = x then fill (t.context x)
        else t.context y := fun y => context_setContext _ _ _
    have hself : ((t.setContext x fill).context x).uuid = uuid := by
      rw [hctx, if_pos rfl, hfill]
    have hadd : Added t (t.setContext x fill) x uuid := by
      refine ⟨fun hheld => hheld hhome, fun y => ?_, fun y hy => (hctx y).trans (if_neg hy), hself,
        h.home _, fun y _ => rfl, rfl, rfl, rfl, le_rfl⟩
      by_cases hy : y = x
      · refine iff_of_true ?_ (Or.inr hy)
        rw [hy, hx, Held, ← hx, hself]
        exact h0
      · rw [or_iff_left hy]
        cases y with
        | home i => rw [Held, Held, hctx, if_neg hy]
        | heap n => rfl
    refine ⟨t, x, rfl, h.home _, hadd, h.insert hadd h0 hfresh (Or.inl hx) (fun i y => Or.inl)
      h.nodup ?_⟩
    intro i hi
    by_cases hix : Ref.home i = x
    · rw [hix, hself] at hi
      exact absurd hi h0
    · rw [hctx, if_neg hix] at hi
      exact h.empty i hi
  · rw [newContext, if_neg hhome]
    set x := Ref.heap t.nextHeap with hx
    set slot := uuidHash uuid with hslot
    have hhome' : ∀ i, Ref.home i ≠ x := fun i => Ref.home_ne_heap i _
    have hnew : ∀ i, x ∉ t.contextChain i := by
      intro i hmem
      obtain ⟨-, n, hn, heq⟩ := h.heap i x hmem
      exact absurd (Ref.heap.inj heq) hn.ne'
    set t₁ : Tables := { t with
      contextChain := Function.update t.contextChain slot (x :: t.contextChain slot)
      contextFreed := Function.update t.contextFreed x false
      nextHeap := t.nextHeap + 1 } with ht₁
    have hctx : ∀ y, (t₁.setContext x fill).context y = if y = x then fill (t.context x)
        else t.context y := fun y => context_setContext _ _ _
    have hmem : ∀ i y, y ∈ (t₁.setContext x fill).contextChain i ↔
        y ∈ t.contextChain i ∨ y = x ∧ i = slot := by
      intro i y
      show y ∈ Function.update t.contextChain slot (x :: t.contextChain slot) i ↔ _
      by_cases hi : i = slot
      · rw [hi, Function.update_self, List.mem_cons, or_comm, and_iff_left rfl]
      · rw [Function.update_of_ne hi]
        exact ⟨Or.inl, fun hy => hy.resolve_right fun hy => hi hy.2⟩
    have hadd : Added t (t₁.setContext x fill) x uuid := by
      refine ⟨?_, fun y => ?_, fun y hy => (hctx y).trans (if_neg hy), ?_,
        Function.update_self _ _ _, fun y hy => Function.update_of_ne hy _ _, rfl, rfl, rfl,
        Nat.le_succ _⟩
      · rintro ⟨i, hi⟩
        exact hnew i hi
      · cases y with
        | home i =>
          rw [Held, hctx, if_neg (hhome' i)]
          exact (or_iff_left (hhome' i)).symm
        | heap n =>
          constructor
          · rintro ⟨i, hi⟩
            exact ((hmem i _).mp hi).imp (fun hi => ⟨i, hi⟩) And.left
          · rintro (⟨i, hi⟩ | hy)
            · exact ⟨i, (hmem i _).mpr (Or.inl hi)⟩
            · exact ⟨slot, (hmem slot _).mpr (Or.inr ⟨hy, rfl⟩)⟩
      · rw [hctx, if_pos rfl, hfill]
    refine ⟨t₁, x, rfl, Function.update_self _ _ _, hadd, h.insert hadd h0 hfresh
      (Or.inr ⟨t.nextHeap, Nat.lt_succ_self _, hx⟩) (fun i y hy => ?_) (fun i => ?_) fun i hi => ?_⟩
    · exact ((hmem i y).mp hy).imp id fun hy => ⟨hy.1, (Ref.home_ne_heap _ _).symm, hy.2⟩
    · show (Function.update t.contextChain slot (x :: t.contextChain slot) i).Nodup
      by_cases hi : i = slot
      · rw [hi, Function.update_self]
        exact List.nodup_cons.mpr ⟨hnew slot, h.nodup slot⟩
      · rw [Function.update_of_ne hi]
        exact h.nodup i
    · rw [hctx, if_neg (hhome' i)] at hi
      have hne : i ≠ slot := by
        rintro rfl
        exact hhome hi
      show Function.update t.contextChain slot (x :: t.contextChain slot) i = []
      rw [Function.update_of_ne hne]
      exact h.empty i hi

/-- A context is created for a client that has an entry. -/
theorem createCalleeContext_spec (h : t.Ok uuidHash) (hknown : t.Known c) (h0 : uuid ≠ 0)
    (hfresh : ¬ t.Has uuid) (userContext : ℕ) (rundown : Bool) :
    ∃ t', t.createCalleeContext uuidHash uuid userContext rundown (t.client c).client = some t' ∧
      t'.Ok uuidHash ∧ (∀ d, t'.Known d ↔ t.Known d) ∧
      (∀ d, (t'.client d).client = (t.client d).client ∧
        (t'.client d).refCount = (t.client d).refCount ∧
        (t'.client d).rundownPending = (t.client d).rundownPending) ∧
      ∀ u, t'.Has u ↔ t.Has u ∨ u = uuid := by
  obtain ⟨ho, hc, lists, hl⟩ := h
  obtain ⟨t₁, x, hplace, hfreed, hadd, ho₂⟩ := newContext_spec ho h0 hfresh (fun e =>
    { e with uuid := uuid, userContext := userContext, rundown := rundown }) fun _ => rfl
  set t₂ := t₁.setContext x fun e =>
    { e with uuid := uuid, userContext := userContext, rundown := rundown } with ht₂
  obtain ⟨hc₂, hknown₂⟩ := hadd.clients hc
  have hl₂ : t₂.ListsOk lists t.Held := by
    refine hl.congr (fun d => ?_) hknown₂ (fun y hy => ?_) fun _ => Iff.rfl
    · rw [hadd.client]
      exact ⟨rfl, rfl, rfl⟩
    · have hyx : y ≠ x := by
        rintro rfl
        exact hadd.not_held hy
      rw [nextIn, nextIn, prevIn, prevIn, hadd.context y hyx]
      exact ⟨rfl, rfl, rfl, hadd.freed_ne y hyx⟩
  obtain ⟨t₃, lists₃, hlink, hl₃, hclient₃, huuid₃, hchain₃, hcfreed₃, hcchain₃, hcf₃, hheap₃⟩ :=
    linkContext_spec hc₂ hl₂ ((hknown₂ c).mpr hknown) hadd.not_held hadd.freed
  have hdata : ∀ d, (t₃.client d).client = (t.client d).client ∧
      (t₃.client d).refCount = (t.client d).refCount ∧
      (t₃.client d).rundownPending = (t.client d).rundownPending := by
    intro d
    rw [← hadd.client, hclient₃]
    by_cases hd : d = c
    · rw [if_pos hd, hd]
      exact ⟨rfl, rfl, rfl⟩
    · rw [if_neg hd]
      exact ⟨rfl, rfl, rfl⟩
  obtain ⟨ho₃, hheld₃, hhas₃⟩ := ho₂.congr _ huuid₃ hchain₃ hcfreed₃ hheap₃
  obtain ⟨hc₃, hknown₃⟩ := hc₂.congr t₃ (fun d => by
    rw [(hdata d).1, hadd.client]) hcchain₃ hcf₃ hheap₃
  refine ⟨t₃, ?_, ⟨ho₃, hc₃, lists₃, ?_⟩, fun d => (hknown₃ d).trans (hknown₂ d), hdata,
    fun u => (hhas₃ u).trans (hadd.has u)⟩
  · rw [createCalleeContext, hplace]
    show (t₁.writeContext x _).bind _ = _
    rw [writeContext_eq hfreed, Option.bind_some]
    show t₂.addToCalleeClient (t.client c).client (some x) = _
    have hfind := findClient_eq hc₂ ((hknown₂ c).mpr hknown)
    rw [hadd.client] at hfind
    rw [addToCalleeClient, hfind]
    exact hlink
  · have hH : t₃.Held = fun y => t.Held y ∨ y = x := by
      funext y
      rw [hheld₃, hadd.held]
    rw [hH]
    exact hl₃

end Tables

end Ctx

end Idl
