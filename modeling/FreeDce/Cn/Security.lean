/-
The security context list of an association (cnsassm.c, cnassoc.c, rpclist.h).

Bind and alter-context requests with an authentication trailer create a security context
for the key of the trailer, or renew the one there is, and put it at the end of an intrusive
list, also if it is on the list.  What the authentication module decides comes with the
trailer.

* `processAuthTlr_again`, `processAuthTlr_new` — what a trailer does to the list;
* `SecRunInv.behaves` — a request keeps the list in order exactly if it meets `StepOk`;
* `secSound_iff` — runs of requests.
-/
import FreeDce.Lib.Chain
import FreeDce.Lib.Runs

namespace Cn

open Pointers

/-! ### The list -/

/-- Where the `last` pointer of a list or of an element leads: to the list, or to an element. -/
inductive Link
  | list
  | elem (a : ℕ)
deriving DecidableEq

/-- `rpc_cn_sec_context_t`. -/
structure SecContext where
  next : Option ℕ := none
  last : Option Link := none
  secValid : Bool := false
  secKeyId : BitVec 32 := 0

/-- `context_list`, and the elements that were allocated for it. -/
structure SecList where
  first : Option ℕ
  last : Option Link
  mem : ℕ → SecContext
  allocated : ℕ

/-- `RPC_LIST_INIT`. -/
def SecList.init : SecList := ⟨none, none, fun _ => {}, 0⟩

def SecList.next (s : SecList) (a : ℕ) : Option ℕ := (s.mem a).next

def SecList.key (s : SecList) (a : ℕ) : BitVec 32 := (s.mem a).secKeyId

def SecList.set (s : SecList) (a : ℕ) (f : SecContext → SecContext) : SecList :=
  { s with mem := Function.update s.mem a (f (s.mem a)) }

/-- `RPC_LIST_ADD_TAIL`. -/
def SecList.addTail (s : SecList) (a : ℕ) : SecList :=
  let s :=
    if s.first = none then
      { s.set a fun c => { c with last := some .list } with first := some a }
    else
      let s' :=
        match s.last with
        | some (.elem t) => s.set t fun c => { c with next := some a }
        | some .list => { s with first := some a }
        | none => s
      s'.set a fun c => { c with last := s.last }
  { s.set a fun c => { c with next := none } with last := some (.elem a) }

/-- `rpc__cn_assoc_sec_lkup_by_id`; `none` if the search goes on behind all there is. -/
def SecList.lkupById (s : SecList) (keyId : BitVec 32) : Option (Option ℕ) :=
  findFrom s.next (fun a => s.key a = keyId) s.allocated s.first

/-- `rpc__cn_assoc_sec_alloc`. -/
def SecList.alloc (s : SecList) : SecList × ℕ :=
  ({ s.set s.allocated fun _ => {} with allocated := s.allocated + 1 }, s.allocated)

/-! ### Requests -/

/-- An authentication trailer: `supported` if its protocol is, `created` if a context can be
made for it, `verified` if `RPC_CN_AUTH_VFY_CLIENT_REQ` and `RPC_CN_AUTH_RECV_CHECK` accept
it. -/
structure AuthTlr where
  keyId : BitVec 32
  supported : Bool
  created : Bool
  verified : Bool
deriving DecidableEq

/-- The context of a trailer: the one there is, or a new one. -/
def secContextFor (s : SecList) (tlr : AuthTlr) : Option ℕ → Option (SecList × ℕ)
  | some a => some (s, a)
  | none => if tlr.created then some s.alloc else none

/-- `rpc__cn_assoc_process_auth_tlr`: the list and the context, which is not there if the
trailer is refused.  `none` if the lookup does not end. -/
def processAuthTlr (s : SecList) (tlr : AuthTlr) : Option (SecList × Option ℕ) :=
  if ¬ tlr.supported then some (s, none)
  else
    match s.lkupById tlr.keyId with
    | none => none
    | some found =>
      match secContextFor s tlr found with
      | none => some (s, none)
      | some (s, sec) =>
        let s := s.set sec fun c => { c with secKeyId := tlr.keyId }
        let s := s.addTail sec
        some (s.set sec fun c => { c with secValid := true }, some sec)

/-- The requests that may carry a trailer.  A bind or an alter-context request gets to it if
the negotiation went well, and an alter-context request if it is complete. -/
inductive AuthPdu
  | bind (negotiated : Bool) (tlr : Option AuthTlr)
  | alterContext (complete negotiated : Bool) (tlr : Option AuthTlr)
  | auth3 (tlr : Option AuthTlr)
deriving DecidableEq

/-- The trailer that is processed. -/
def AuthPdu.processed : AuthPdu → Option AuthTlr
  | .bind true tlr => tlr
  | .alterContext true true tlr => tlr
  | _ => none

/-- The list, with the keys of the trailers that were answered, and the contexts for which the
authentication module accepted what was presented last. -/
structure SecRun where
  sec : SecList
  presented : List (BitVec 32)
  accepted : ℕ → Bool

def SecRun.init : SecRun := ⟨.init, [], fun _ => false⟩

/-- A request arrives. -/
def SecRun.step (s : SecRun) (pdu : AuthPdu) : Option SecRun :=
  match pdu.processed with
  | none => some s
  | some tlr =>
    match processAuthTlr s.sec tlr with
    | none => none
    | some (sec, none) => some { s with sec := sec }
    | some (sec, some a) => some {
        sec := sec
        presented := tlr.keyId :: s.presented
        accepted := Function.update s.accepted a tlr.verified }

/-! ### What the list is for -/

/-- The elements of the list, all different and for different keys. -/
structure SecList.Elems (s : SecList) (l : List ℕ) : Prop where
  chain : Chain s.next s.first l
  nodup : l.Nodup
  keys : (l.map s.key).Nodup

/-- The list is finite and has no repetition, each key that was presented is found, and a
context is marked valid only if it was accepted. -/
structure SecSound (s : SecRun) : Prop where
  elems : ∃ l, s.sec.Elems l ∧ ∀ a ∈ l, (s.sec.mem a).secValid = true → s.accepted a = true
  ends : ∀ keyId, ∃ found, s.sec.lkupById keyId = some found
  found : ∀ keyId ∈ s.presented, ∃ a, s.sec.lkupById keyId = some (some a) ∧ s.sec.key a = keyId

/-- A trailer that is not refused is accepted, and is for a new key or for that of the last
element. -/
def StepOk (s : SecRun) (pdu : AuthPdu) : Prop :=
  ∀ tlr ∈ pdu.processed, tlr.supported = true →
    (∃ a, s.sec.lkupById tlr.keyId = some (some a)) ∨ tlr.created = true →
    tlr.verified = true ∧
      ∀ a, s.sec.lkupById tlr.keyId = some (some a) → s.sec.last = some (.elem a)

/-- The elements of the list, with what the operations rely on. -/
structure SecInv (s : SecList) (l : List ℕ) : Prop extends s.Elems l where
  last : s.last = l.getLast?.map Link.elem
  lt : ∀ a ∈ l, a < s.allocated

variable {s : SecList} {l : List ℕ} {a : ℕ} {tlr : AuthTlr}

theorem SecInv.length_le (h : SecInv s l) : l.length ≤ s.allocated := by
  have hsub : l ⊆ List.range s.allocated := fun a ha => List.mem_range.mpr (h.lt a ha)
  have hlen := (h.nodup.subperm hsub).length_le
  rwa [List.length_range] at hlen

theorem SecInv.lkupById_eq (h : SecInv s l) (keyId : BitVec 32) :
    s.lkupById keyId = some (l.find? fun a => s.key a = keyId) :=
  findFrom_eq h.chain h.length_le

theorem secInv_init : SecInv .init [] := ⟨⟨rfl, List.nodup_nil, List.nodup_nil⟩, rfl, by simp⟩

/-! ### Adding an element -/

theorem set_mem (f : SecContext → SecContext) (b : ℕ) :
    (s.set a f).mem b = if b = a then f (s.mem a) else s.mem b := by
  show Function.update s.mem a (f (s.mem a)) b = _
  rw [Function.update_apply]

/-- Adding an element changes links only. -/
theorem addTail_mem (s : SecList) (a b : ℕ) : ((s.addTail a).mem b).secKeyId = (s.mem b).secKeyId ∧
    ((s.addTail a).mem b).secValid = (s.mem b).secValid := by
  rw [SecList.addTail]
  by_cases hfirst : s.first = none
  · rw [if_pos hfirst]
    by_cases hb : b = a <;> simp [SecList.set, hb]
  · rw [if_neg hfirst]
    rcases s.last with _ | _ | t
    · by_cases hb : b = a <;> simp [SecList.set, hb]
    · by_cases hb : b = a <;> simp [SecList.set, hb]
    · by_cases hb : b = a <;> by_cases ht : b = t <;> by_cases hat : a = t <;>
        simp_all [SecList.set]

theorem addTail_key (s : SecList) (a : ℕ) : (s.addTail a).key = s.key :=
  funext fun b => (addTail_mem s a b).1

theorem addTail_last (s : SecList) (a : ℕ) : (s.addTail a).last = some (.elem a) := rfl

theorem addTail_next_self (s : SecList) (a : ℕ) : (s.addTail a).next a = none := by
  simp [SecList.addTail, SecList.next, SecList.set]

/-- Behind the element that was the last one comes the new one. -/
theorem addTail_of_last {t : ℕ} (hfirst : s.first ≠ none) (hlast : s.last = some (.elem t)) :
    (s.addTail a).first = s.first ∧ (s.addTail a).allocated = s.allocated ∧
      ∀ b, b ≠ a → (s.addTail a).next b = if b = t then some a else s.next b := by
  rw [SecList.addTail, if_neg hfirst, hlast]
  refine ⟨rfl, rfl, ?_⟩
  intro b hb
  by_cases ht : b = t <;> by_cases hat : a = t <;>
    simp_all [SecList.set, SecList.next]

theorem SecInv.first_ne {t : ℕ} (h : SecInv s (l ++ [t])) :
    s.first ≠ none ∧ s.last = some (.elem t) := by
  constructor
  · intro hfirst
    have hchain := h.chain
    rw [hfirst] at hchain
    cases l with
    | nil => cases hchain.1
    | cons x l => cases hchain.1
  · rw [h.last, List.getLast?_concat]
    rfl

/-- A new element goes behind the others. -/
theorem SecInv.addTail_new (h : SecInv s l) (ha : a ∉ l) (hlt : a < s.allocated)
    (hkey : s.key a ∉ l.map s.key) : SecInv (s.addTail a) (l ++ [a]) := by
  have hnodup : (l ++ [a]).Nodup := List.nodup_append.mpr ⟨h.nodup, List.nodup_singleton a,
    fun x hx y hy hxy => ha (List.mem_singleton.mp hy ▸ hxy ▸ hx)⟩
  have hkeys : ((l ++ [a]).map (s.addTail a).key).Nodup := by
    rw [addTail_key, List.map_append]
    exact List.nodup_append.mpr ⟨h.keys, List.nodup_singleton _,
      fun x hx y hy hxy => hkey (List.mem_singleton.mp hy ▸ hxy ▸ hx)⟩
  have hlast : (s.addTail a).last = (l ++ [a]).getLast?.map Link.elem := by
    rw [List.getLast?_concat]
    rfl
  rcases List.eq_nil_or_concat l with rfl | ⟨l, t, rfl⟩
  · have hfirst : s.first = none := h.chain
    refine ⟨⟨⟨?_, addTail_next_self s a⟩, hnodup, hkeys⟩, hlast, ?_⟩
    · rw [SecList.addTail, if_pos hfirst]
      rfl
    · intro x hx
      rw [SecList.addTail, if_pos hfirst, List.mem_singleton.mp hx]
      exact hlt
  · rw [List.concat_eq_append] at h hnodup hkeys hlast ha ⊢
    obtain ⟨hfirst, hlink⟩ := h.first_ne
    obtain ⟨hfirst', hallocated, hnext⟩ := addTail_of_last (a := a) hfirst hlink
    have hl : ∀ x ∈ l ++ [t], x ≠ a := fun x hx hxa => ha (hxa ▸ hx)
    refine ⟨⟨?_, hnodup, hkeys⟩, hlast, ?_⟩
    · rw [hfirst', List.append_assoc]
      refine h.chain.snoc ?_ ?_ (addTail_next_self s a)
      · intro y hy
        rw [hnext y (hl y (List.mem_append_left _ hy)), if_neg]
        rintro rfl
        exact (List.nodup_append.mp h.nodup).2.2 y hy y List.mem_cons_self rfl
      · rw [hnext t (hl t (List.mem_append_right _ List.mem_cons_self)), if_pos rfl]
    · intro x hx
      rw [hallocated]
      rcases List.mem_append.mp hx with hx | hx
      · exact h.lt x hx
      · rw [List.mem_singleton.mp hx]
        exact hlt

/-- An element that is added again becomes the last one: what was behind it is lost. -/
theorem SecInv.addTail_again {before after : List ℕ} (h : SecInv s (before ++ a :: after)) :
    SecInv (s.addTail a) (before ++ [a]) := by
  have hsub : (before ++ [a]).Sublist (before ++ a :: after) :=
    (List.Sublist.refl _).append (List.singleton_sublist.mpr List.mem_cons_self)
  obtain ⟨t, ht, hlink, hfirst⟩ : ∃ t ∈ a :: after, s.last = some (.elem t) ∧ s.first ≠ none := by
    rcases List.eq_nil_or_concat after with rfl | ⟨rest, t, rfl⟩
    · exact ⟨a, List.mem_cons_self, h.first_ne.2, h.first_ne.1⟩
    · rw [List.concat_eq_append, ← List.cons_append, ← List.append_assoc] at h
      refine ⟨t, ?_, h.first_ne.2, h.first_ne.1⟩
      rw [List.concat_eq_append]
      exact List.mem_cons_of_mem _ (List.mem_append_right _ List.mem_cons_self)
  obtain ⟨hfirst', hallocated, hnext⟩ := addTail_of_last (a := a) hfirst hlink
  have hdisjoint : ∀ y ∈ before, ∀ z ∈ a :: after, y ≠ z := (List.nodup_append.mp h.nodup).2.2
  refine ⟨⟨?_, h.nodup.sublist hsub, ?_⟩, ?_, ?_⟩
  · rw [hfirst']
    refine h.chain.cut ?_ (addTail_next_self s a)
    intro y hy
    rw [hnext y (hdisjoint y hy a List.mem_cons_self), if_neg (hdisjoint y hy t ht)]
  · rw [addTail_key]
    exact h.keys.sublist (hsub.map s.key)
  · rw [List.getLast?_concat]
    rfl
  · intro x hx
    rw [hallocated]
    exact h.lt x (hsub.subset hx)

/-! ### Trailers -/

/-- The links and the keys of the elements are all that matters. -/
theorem SecInv.congr {s' : SecList} (h : SecInv s l) (hfirst : s'.first = s.first)
    (hlast : s'.last = s.last) (halloc : s.allocated ≤ s'.allocated)
    (hmem : ∀ x ∈ l, s'.next x = s.next x ∧ s'.key x = s.key x) : SecInv s' l := by
  refine ⟨⟨?_, h.nodup, ?_⟩, hlast.trans h.last, fun x hx => (h.lt x hx).trans_le halloc⟩
  · rw [hfirst]
    exact h.chain.congr fun x hx => (hmem x hx).1
  · rw [List.map_congr_left fun x hx => (hmem x hx).2]
    exact h.keys

/-- What a trailer that is not refused leaves: its context is the last of the list, has its key
and is valid. -/
structure Taken (s : SecList) (tlr : AuthTlr) (s' : SecList) (l' : List ℕ) (a : ℕ) : Prop where
  inv : SecInv s' (l' ++ [a])
  key : s'.key a = tlr.keyId
  valid : (s'.mem a).secValid = true
  others : ∀ x ∈ l', s'.key x = s.key x ∧ (s'.mem x).secValid = (s.mem x).secValid

/-- The end of `rpc__cn_assoc_process_auth_tlr`, for the context `a`. -/
def takeUp (s : SecList) (tlr : AuthTlr) (a : ℕ) : SecList :=
  ((s.set a fun c => { c with secKeyId := tlr.keyId }).addTail a).set a
    fun c => { c with secValid := true }

theorem takeUp_spec {l' : List ℕ} (ha : a ∉ l')
    (h : SecInv ((s.set a fun c => { c with secKeyId := tlr.keyId }).addTail a) (l' ++ [a])) :
    Taken s tlr (takeUp s tlr a) l' a := by
  have hother (x : ℕ) (hx : x ≠ a) : (takeUp s tlr a).key x = s.key x ∧
      ((takeUp s tlr a).mem x).secValid = (s.mem x).secValid := by
    have hmem : (takeUp s tlr a).mem x
        = ((s.set a fun c => { c with secKeyId := tlr.keyId }).addTail a).mem x := by
      rw [takeUp, set_mem, if_neg hx]
    rw [SecList.key, hmem, (addTail_mem _ a x).1, (addTail_mem _ a x).2, set_mem, if_neg hx]
    exact ⟨rfl, rfl⟩
  have hkey (x : ℕ) : (takeUp s tlr a).key x
      = ((s.set a fun c => { c with secKeyId := tlr.keyId }).addTail a).key x := by
    rw [SecList.key, takeUp, set_mem]
    by_cases hx : x = a
    · rw [if_pos hx, hx]
      rfl
    · rw [if_neg hx]
      rfl
  refine ⟨h.congr rfl rfl le_rfl fun x _ => ⟨?_, hkey x⟩, ?_, ?_, fun x hx => hother x ?_⟩
  · rw [SecList.next, takeUp, set_mem]
    by_cases hx : x = a
    · rw [if_pos hx, hx]
      rfl
    · rw [if_neg hx]
      rfl
  · rw [hkey, addTail_key, SecList.key, set_mem, if_pos rfl]
  · rw [takeUp, set_mem, if_pos rfl]
  · rintro rfl
    exact ha hx

theorem processAuthTlr_refused (h : SecInv s l)
    (hrefused : tlr.supported = false ∨
      (∀ a ∈ l, s.key a ≠ tlr.keyId) ∧ tlr.created = false) :
    processAuthTlr s tlr = some (s, none) := by
  rw [processAuthTlr]
  rcases hrefused with hsupported | ⟨hnew, hcreated⟩
  · rw [if_pos (by simp [hsupported])]
  · by_cases hsupported : tlr.supported = true
    · have hfind : l.find? (fun a => s.key a = tlr.keyId) = none :=
        List.find?_eq_none.mpr fun a ha => by simpa using hnew a ha
      rw [if_neg (not_not_intro hsupported), h.lkupById_eq, hfind]
      simp [secContextFor, hcreated]
    · rw [if_pos hsupported]

/-- A trailer for a key that is on the list. -/
theorem processAuthTlr_again {before after : List ℕ} (h : SecInv s (before ++ a :: after))
    (hsupported : tlr.supported = true) (hkey : s.key a = tlr.keyId) :
    processAuthTlr s tlr = some (takeUp s tlr a, some a) ∧
      Taken s tlr (takeUp s tlr a) before a := by
  have hbefore : ∀ x ∈ before, s.key x ≠ tlr.keyId := by
    intro x hx hxkey
    have hkeys := h.keys
    rw [List.map_append, List.map_cons] at hkeys
    exact (List.nodup_append.mp hkeys).2.2 _ (List.mem_map_of_mem hx) _ List.mem_cons_self
      (hxkey.trans hkey.symm)
  constructor
  · have hfind : (before ++ a :: after).find? (fun a => s.key a = tlr.keyId) = some a := by
      rw [List.find?_append, List.find?_eq_none.mpr fun x hx => by simpa using hbefore x hx,
        Option.none_or, List.find?_cons_of_pos (by simpa using hkey)]
    rw [processAuthTlr, if_neg (not_not_intro hsupported), h.lkupById_eq, hfind]
    rfl
  · have hset : SecInv (s.set a fun c => { c with secKeyId := tlr.keyId })
        (before ++ a :: after) := by
      refine h.congr rfl rfl le_rfl fun x _ => ?_
      rw [SecList.next, SecList.key, set_mem]
      by_cases hx : x = a
      · rw [if_pos hx, hx]
        exact ⟨rfl, hkey.symm⟩
      · rw [if_neg hx]
        exact ⟨rfl, rfl⟩
    refine takeUp_spec ?_ hset.addTail_again
    exact fun ha => (List.nodup_append.mp h.nodup).2.2 a ha a List.mem_cons_self rfl

/-- A trailer for a new key. -/
theorem processAuthTlr_new (h : SecInv s l) (hsupported : tlr.supported = true)
    (hnew : ∀ a ∈ l, s.key a ≠ tlr.keyId) (hcreated : tlr.created = true) :
    processAuthTlr s tlr = some (takeUp s.alloc.1 tlr s.allocated, some s.allocated) ∧
      Taken s tlr (takeUp s.alloc.1 tlr s.allocated) l s.allocated := by
  have hfresh : s.allocated ∉ l := fun hmem => lt_irrefl _ (h.lt _ hmem)
  have hne : ∀ x ∈ l, x ≠ s.allocated := fun x hx hxa => hfresh (hxa ▸ hx)
  have hother (x : ℕ) (hx : x ∈ l) : s.alloc.1.mem x = s.mem x := by
    show Function.update s.mem s.allocated _ x = _
    rw [Function.update_of_ne (hne x hx)]
  constructor
  · have hfind : l.find? (fun a => s.key a = tlr.keyId) = none :=
      List.find?_eq_none.mpr fun a ha => by simpa using hnew a ha
    rw [processAuthTlr, if_neg (not_not_intro hsupported), h.lkupById_eq, hfind]
    simp only [secContextFor, hcreated, if_true]
    rfl
  · have hset : SecInv (s.alloc.1.set s.allocated fun c => { c with secKeyId := tlr.keyId }) l := by
      refine h.congr rfl rfl (Nat.le_succ _) fun x hx => ?_
      have hmem : (s.alloc.1.set s.allocated fun c => { c with secKeyId := tlr.keyId }).mem x
          = s.mem x := by
        rw [set_mem, if_neg (hne x hx), hother x hx]
      rw [SecList.next, SecList.key, hmem]
      exact ⟨rfl, rfl⟩
    have hkey : (s.alloc.1.set s.allocated fun c => { c with secKeyId := tlr.keyId }).key s.allocated
        = tlr.keyId := by
      rw [SecList.key, set_mem, if_pos rfl]
    have hkeys : tlr.keyId ∉ l.map
        (s.alloc.1.set s.allocated fun c => { c with secKeyId := tlr.keyId }).key := by
      intro hmem
      obtain ⟨x, hx, hxkey⟩ := List.mem_map.mp hmem
      refine hnew x hx ?_
      rw [← hxkey, SecList.key, SecList.key, set_mem, if_neg (hne x hx),
        hother x hx]
    have htaken := takeUp_spec hfresh
      (hset.addTail_new hfresh (Nat.lt_succ_self _) (by rw [hkey]; exact hkeys))
    refine ⟨htaken.inv, htaken.key, htaken.valid, fun x hx => ?_⟩
    rw [(htaken.others x hx).1, (htaken.others x hx).2, SecList.key, SecList.key, hother x hx]
    exact ⟨rfl, rfl⟩

/-! ### Runs -/

/-- The list in order: its keys are those that were presented. -/
structure SecRunInv (s : SecRun) (l : List ℕ) : Prop where
  inv : SecInv s.sec l
  presented : ∀ keyId, keyId ∈ s.presented ↔ ∃ a ∈ l, s.sec.key a = keyId
  accepted : ∀ a ∈ l, (s.sec.mem a).secValid = true → s.accepted a = true

/-- A key that is on the list is found. -/
theorem SecInv.lkup_of_mem (h : SecInv s l) {keyId : BitVec 32} (hex : ∃ a ∈ l, s.key a = keyId) :
    ∃ a ∈ l, s.lkupById keyId = some (some a) ∧ s.key a = keyId := by
  rw [h.lkupById_eq]
  cases hfind : l.find? (fun a => s.key a = keyId) with
  | none =>
    obtain ⟨a, ha, hkey⟩ := hex
    exact absurd hkey (by simpa using List.find?_eq_none.mp hfind a ha)
  | some a => exact ⟨a, List.mem_of_find?_eq_some hfind, rfl, by simpa using List.find?_some hfind⟩

theorem SecRunInv.sound {s : SecRun} (h : SecRunInv s l) : SecSound s where
  elems := ⟨l, h.inv.toElems, h.accepted⟩
  ends keyId := ⟨_, h.inv.lkupById_eq keyId⟩
  found keyId hkeyId := by
    obtain ⟨a, -, hlkup, hkey⟩ := h.inv.lkup_of_mem ((h.presented keyId).mp hkeyId)
    exact ⟨a, hlkup, hkey⟩

/-- The run after a trailer that was taken up. -/
def SecRun.taken (s : SecRun) (tlr : AuthTlr) (sec : SecList) (a : ℕ) : SecRun where
  sec := sec
  presented := tlr.keyId :: s.presented
  accepted := Function.update s.accepted a tlr.verified

theorem taken_accepted (s : SecRun) (tlr : AuthTlr) (sec : SecList) (a : ℕ) :
    (s.taken tlr sec a).accepted = Function.update s.accepted a tlr.verified := rfl

theorem Taken.secSound_verified {s : SecRun} {s' : SecList} {l' : List ℕ}
    (h : Taken s.sec tlr s' l' a) (hsound : SecSound (s.taken tlr s' a)) :
    tlr.verified = true := by
  obtain ⟨l₂, helems, haccepted⟩ := hsound.elems
  obtain rfl : l₂ = l' ++ [a] := helems.chain.unique h.inv.chain
  have hvalid := haccepted a (List.mem_append_right _ List.mem_cons_self) h.valid
  rwa [taken_accepted, Function.update_self] at hvalid

/-- If all that was on the list still is, and the trailer was accepted, the list is in order. -/
theorem Taken.secRunInv {s : SecRun} {s' : SecList} {l' : List ℕ} (h : Taken s.sec tlr s' l' a)
    (hverified : tlr.verified = true)
    (hpresented : ∀ keyId, keyId ∈ s.presented ∨ keyId = tlr.keyId ↔
      (∃ x ∈ l', s.sec.key x = keyId) ∨ tlr.keyId = keyId)
    (haccepted : ∀ x ∈ l', (s.sec.mem x).secValid = true → s.accepted x = true) :
    SecRunInv (s.taken tlr s' a) (l' ++ [a]) := by
  have ha : a ∉ l' := fun ha =>
    (List.nodup_append.mp h.inv.nodup).2.2 a ha a List.mem_cons_self rfl
  refine ⟨h.inv, fun keyId => ?_, fun x hx hvalid => ?_⟩
  · rw [SecRun.taken, List.mem_cons, or_comm, hpresented keyId]
    simp only [List.mem_append, List.mem_singleton, or_and_right, exists_or, exists_eq_left, h.key]
    refine or_congr_left (exists_congr fun x => and_congr_right fun hx => ?_)
    rw [(h.others x hx).1]
  · rw [taken_accepted, Function.update_apply]
    rcases List.mem_append.mp hx with hx | hx
    · have hne : x ≠ a := fun hxa => ha (hxa ▸ hx)
      rw [if_neg hne]
      exact haccepted x hx ((h.others x hx).2 ▸ hvalid)
    · rw [if_pos (List.mem_singleton.mp hx)]
      exact hverified

/-- A request does not lose anything, and keeps the list in order exactly if it meets
`StepOk`. -/
def Behaves (s : SecRun) (pdu : AuthPdu) : Prop :=
  ∃ s', s.step pdu = some s' ∧ (StepOk s pdu → ∃ l', SecRunInv s' l') ∧
    (SecSound s' ↔ StepOk s pdu)

theorem stepOk_iff {s : SecRun} {pdu : AuthPdu} (hpdu : pdu.processed = some tlr) :
    StepOk s pdu ↔ (tlr.supported = true →
      (∃ a, s.sec.lkupById tlr.keyId = some (some a)) ∨ tlr.created = true →
      tlr.verified = true ∧
        ∀ a, s.sec.lkupById tlr.keyId = some (some a) → s.sec.last = some (.elem a)) := by
  rw [StepOk, hpdu]
  simp

theorem step_taken {s : SecRun} {pdu : AuthPdu} {sec : SecList} (hpdu : pdu.processed = some tlr)
    (hprocess : processAuthTlr s.sec tlr = some (sec, some a)) :
    s.step pdu = some (s.taken tlr sec a) := by
  rw [SecRun.step, hpdu]
  dsimp only
  rw [hprocess]
  rfl

/-- Nothing happens to a refused trailer. -/
theorem SecRunInv.refused {s : SecRun} {pdu : AuthPdu} (h : SecRunInv s l)
    (hpdu : pdu.processed = some tlr) (hrefused : tlr.supported = false ∨
      (∀ a ∈ l, s.sec.key a ≠ tlr.keyId) ∧ tlr.created = false) : Behaves s pdu := by
  have hstep : s.step pdu = some s := by
    rw [SecRun.step, hpdu]
    dsimp only
    rw [processAuthTlr_refused h.inv hrefused]
  refine ⟨s, hstep, fun _ => ⟨l, h⟩, iff_of_true h.sound ((stepOk_iff hpdu).mpr ?_)⟩
  intro hsupported hor
  exfalso
  rcases hrefused with hno | ⟨hnew, hcreated⟩
  · rw [hsupported] at hno
    cases hno
  · rcases hor with ⟨a, ha⟩ | hcreated'
    · rw [h.inv.lkupById_eq, Option.some_inj] at ha
      exact hnew a (List.mem_of_find?_eq_some ha) (by simpa using List.find?_some ha)
    · rw [hcreated] at hcreated'
      cases hcreated'

/-- An element that is the last one of its list has nothing behind it. -/
theorem SecInv.last_iff {before after : List ℕ} (h : SecInv s (before ++ a :: after)) :
    s.last = some (.elem a) ↔ after = [] := by
  rw [h.last]
  constructor
  · intro hlast
    by_contra hne
    obtain ⟨rest, t, hrest⟩ := (List.eq_nil_or_concat after).resolve_left hne
    rw [List.concat_eq_append] at hrest
    have hat : t = a := by
      rw [hrest, ← List.cons_append, ← List.append_assoc, List.getLast?_concat] at hlast
      simpa using hlast
    have hnodup := (List.nodup_append.mp h.nodup).2.1
    rw [hrest, hat] at hnodup
    exact (List.nodup_cons.mp hnodup).1 (List.mem_append_right _ List.mem_cons_self)
  · rintro rfl
    rw [List.getLast?_concat]
    rfl

/-- The keys of the elements behind a renewed context are not found any more. -/
theorem Taken.lost {s' : SecList} {before after : List ℕ} (hinv : SecInv s (before ++ a :: after))
    (hkey : s.key a = tlr.keyId) (h : Taken s tlr s' before a) {y : ℕ} (hy : y ∈ after) (b : ℕ) :
    ¬ (s'.lkupById (s.key y) = some (some b) ∧ s'.key b = s.key y) := by
  rintro ⟨hb, hbkey⟩
  have hkeys := hinv.keys
  rw [List.map_append, List.map_cons, List.nodup_append, List.nodup_cons] at hkeys
  obtain ⟨-, ⟨hself, -⟩, hdisjoint⟩ := hkeys
  rw [h.inv.lkupById_eq, Option.some_inj] at hb
  rcases List.mem_append.mp (List.mem_of_find?_eq_some hb) with hmem | hmem
  · rw [(h.others b hmem).1] at hbkey
    exact hdisjoint _ (List.mem_map_of_mem hmem) _
      (List.mem_cons_of_mem _ (List.mem_map_of_mem hy)) hbkey
  · rw [List.mem_singleton.mp hmem, h.key, ← hkey] at hbkey
    exact hself (hbkey ▸ List.mem_map_of_mem hy)

/-- A context is renewed. -/
theorem SecRunInv.again {s : SecRun} {pdu : AuthPdu} (h : SecRunInv s l)
    (hpdu : pdu.processed = some tlr) (hsupported : tlr.supported = true)
    (hold : ∃ a ∈ l, s.sec.key a = tlr.keyId) : Behaves s pdu := by
  obtain ⟨a, ha, hlkup, hkey⟩ := h.inv.lkup_of_mem hold
  obtain ⟨before, after, rfl⟩ := List.append_of_mem ha
  obtain ⟨hprocess, htaken⟩ := processAuthTlr_again h.inv hsupported hkey
  have hok : StepOk s pdu ↔ tlr.verified = true ∧ after = [] := by
    rw [stepOk_iff hpdu, ← h.inv.last_iff]
    constructor
    · intro hall
      obtain ⟨hverified, hlast⟩ := hall hsupported (.inl ⟨a, hlkup⟩)
      exact ⟨hverified, hlast a hlkup⟩
    · rintro ⟨hverified, hlast⟩ - -
      refine ⟨hverified, fun b hb => ?_⟩
      rw [hlkup, Option.some_inj, Option.some_inj] at hb
      rw [← hb]
      exact hlast
  have hkeep : tlr.verified = true ∧ after = [] →
      SecRunInv (s.taken tlr (takeUp s.sec tlr a) a) (before ++ [a]) := by
    rintro ⟨hverified, rfl⟩
    refine htaken.secRunInv hverified (fun keyId => ?_) fun x hx =>
      h.accepted x (List.mem_append_left _ hx)
    rw [h.presented keyId]
    simp only [List.mem_append, List.mem_singleton, or_and_right, exists_or, exists_eq_left, hkey]
    rw [or_assoc, eq_comm (a := keyId), or_self]
  refine ⟨_, step_taken hpdu hprocess, fun hstepOk => ⟨_, hkeep (hok.mp hstepOk)⟩, ?_⟩
  rw [hok]
  constructor
  · intro hsound
    refine ⟨htaken.secSound_verified hsound, ?_⟩
    by_contra hne
    obtain ⟨y, hy⟩ := List.exists_mem_of_ne_nil after hne
    have hykey := (h.presented (s.sec.key y)).mpr
      ⟨y, List.mem_append_right _ (List.mem_cons_of_mem _ hy), rfl⟩
    obtain ⟨b, hb⟩ := hsound.found _ (List.mem_cons_of_mem _ hykey)
    exact htaken.lost h.inv hkey hy b hb
  · exact fun hboth => (hkeep hboth).sound

/-- A new context is made. -/
theorem SecRunInv.new {s : SecRun} {pdu : AuthPdu} (h : SecRunInv s l)
    (hpdu : pdu.processed = some tlr) (hsupported : tlr.supported = true)
    (hnew : ∀ a ∈ l, s.sec.key a ≠ tlr.keyId) (hcreated : tlr.created = true) :
    Behaves s pdu := by
  obtain ⟨hprocess, htaken⟩ := processAuthTlr_new h.inv hsupported hnew hcreated
  have hlkup (a : ℕ) : s.sec.lkupById tlr.keyId ≠ some (some a) := by
    rw [h.inv.lkupById_eq, List.find?_eq_none.mpr fun a ha => by simpa using hnew a ha]
    simp
  have hok : StepOk s pdu ↔ tlr.verified = true := by
    rw [stepOk_iff hpdu]
    exact ⟨fun hall => (hall hsupported (.inr hcreated)).1,
      fun hverified _ _ => ⟨hverified, fun a ha => absurd ha (hlkup a)⟩⟩
  have hkeep : tlr.verified = true → SecRunInv
      (s.taken tlr (takeUp s.sec.alloc.1 tlr s.sec.allocated) s.sec.allocated)
      (l ++ [s.sec.allocated]) := by
    intro hverified
    refine htaken.secRunInv hverified (fun keyId => ?_) h.accepted
    rw [h.presented keyId, eq_comm (a := keyId)]
  refine ⟨_, step_taken hpdu hprocess, fun hstepOk => ⟨_, hkeep (hok.mp hstepOk)⟩, ?_⟩
  rw [hok]
  exact ⟨htaken.secSound_verified, fun hverified => (hkeep hverified).sound⟩

/-- Every request behaves in a list in order. -/
theorem SecRunInv.behaves {s : SecRun} (h : SecRunInv s l) (pdu : AuthPdu) : Behaves s pdu := by
  cases hpdu : pdu.processed with
  | none =>
    have hok : StepOk s pdu := fun tlr htlr => by rw [hpdu] at htlr; cases htlr
    refine ⟨s, ?_, fun _ => ⟨l, h⟩, iff_of_true h.sound hok⟩
    rw [SecRun.step, hpdu]
  | some tlr =>
    by_cases hsupported : tlr.supported = true
    · by_cases hold : ∃ a ∈ l, s.sec.key a = tlr.keyId
      · exact h.again hpdu hsupported hold
      · have hnew : ∀ a ∈ l, s.sec.key a ≠ tlr.keyId := fun a ha hkey => hold ⟨a, ha, hkey⟩
        by_cases hcreated : tlr.created = true
        · exact h.new hpdu hsupported hnew hcreated
        · exact h.refused hpdu (.inr ⟨hnew, Bool.not_eq_true _ ▸ hcreated⟩)
    · exact h.refused hpdu (.inl (Bool.not_eq_true _ ▸ hsupported))

theorem secRunInv_init : SecRunInv .init [] :=
  ⟨secInv_init, fun keyId => iff_of_false List.not_mem_nil (by simp), by simp⟩

/-- The list is in order in every state of a run exactly if every request of the run meets
`StepOk` where it arrives. -/
theorem secSound_iff (pdus : List AuthPdu) :
    (∀ n, ∃ t, Runs.exec SecRun.step .init (pdus.take n) = some t ∧ SecSound t) ↔
      Runs.Along SecRun.step StepOk .init pdus :=
  Runs.forall_take_iff_along (I := fun s => ∃ l, SecRunInv s l)
    (fun _ pdu h => h.elim fun _ h => h.behaves pdu) ⟨[], secRunInv_init⟩ secRunInv_init.sound

/-- Three requests with accepted trailers: the second key is lost when the first context is
renewed. -/
def renewals : List AuthPdu :=
  [.bind true (some ⟨1, true, true, true⟩), .alterContext true true (some ⟨2, true, true, true⟩),
    .alterContext true true (some ⟨1, true, true, true⟩)]

/-- One request with a trailer that is not accepted: its context is marked valid. -/
def forged : List AuthPdu := [.bind true (some ⟨1, true, true, false⟩)]

theorem not_secSound :
    (¬ ∀ n, ∃ t, Runs.exec SecRun.step .init (renewals.take n) = some t ∧ SecSound t) ∧
    ¬ ∀ n, ∃ t, Runs.exec SecRun.step .init (forged.take n) = some t ∧ SecSound t := by
  constructor
  · intro h
    obtain ⟨t, ht, hsound⟩ := h 3
    have hrun : (Runs.exec SecRun.step .init (renewals.take 3)).map
        (fun t => (t.presented, t.sec.lkupById 2)) = some ([1, 2, 1], some none) := by
      decide
    rw [ht, Option.map_some, Option.some_inj, Prod.mk.injEq] at hrun
    obtain ⟨hpresented, hlkup⟩ := hrun
    obtain ⟨a, ha, -⟩ := hsound.found 2 (by rw [hpresented]; decide)
    rw [hlkup] at ha
    cases ha
  · intro h
    obtain ⟨t, ht, hsound⟩ := h 1
    have hrun : (Runs.exec SecRun.step .init (forged.take 1)).map
        (fun t => (t.sec.first, (t.sec.mem 0).secValid, t.accepted 0))
          = some (some 0, true, false) := by decide
    rw [ht, Option.map_some, Option.some_inj, Prod.mk.injEq, Prod.mk.injEq] at hrun
    obtain ⟨hfirst, hvalid, hno⟩ := hrun
    obtain ⟨l, helems, haccepted⟩ := hsound.elems
    have hmem : 0 ∈ l := by
      have hchain := helems.chain
      rw [hfirst] at hchain
      cases l with
      | nil => cases hchain
      | cons x l =>
        rw [Option.some_inj.mp hchain.1]
        exact List.mem_cons_self
    rw [haccepted 0 hmem hvalid] at hno
    cases hno

end Cn
