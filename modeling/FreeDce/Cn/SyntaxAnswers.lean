/-
The answers of the presentation negotiation (cnassoc.c).

`Answered` is the answer an element is due, `Negotiated` that of a whole list.

* `syntaxNegotiate_eq` — the negotiation, element by element;
* `answered_iff` — an element gets the answer of another one if it asks for the same;
* `lkup_iff` — which accepted contexts are found again;
* `negotiated_iff` — when the negotiation answers the list;
* `sameRequests_of_single` — the array is the list if each element but the last has one
  transfer syntax.
-/
import FreeDce.Cn.Syntax

namespace Cn

open Bytes Uuid

variable {registry : IfRegistry} {elem elem' : PresContElem} {syntaxList : List CnSyntax}
  {mem : ℕ → UInt8}

/-! ### What an element is due -/

/-- An interface with the identifier and the major version, and no lower minor version. -/
def Compatible (abstractSyntax : PresSyntaxId) (ifRep : IfRep) : Prop :=
  ifIsCompatible abstractSyntax ifRep = true

/-- The interface that is registered for an abstract syntax: the first compatible one. -/
def IfRegistry.Serves (registry : IfRegistry) (abstractSyntax : PresSyntaxId) (ifRep : IfRep) :
    Prop :=
  ∃ i before after, registry.chain i = before ++ ifRep :: after ∧
    Compatible abstractSyntax ifRep ∧ ∀ entry ∈ before, ¬ Compatible abstractSyntax entry

/-- No interface is registered for it. -/
def IfRegistry.Lacks (registry : IfRegistry) (abstractSyntax : PresSyntaxId) : Prop :=
  ∀ i, ∀ ifRep ∈ registry.chain i, ¬ Compatible abstractSyntax ifRep

/-- The answer to an element. -/
inductive Answered (registry : IfRegistry) (elem : PresContElem) :
    PresResult × Option CnSyntax → Prop
  | abstractSyntax (hif : registry.Lacks elem.abstractSyntax) :
    Answered registry elem
      (⟨pcontProviderRejection, some pprovAbstractSyntaxNotSupported, zeroSyntax⟩, none)
  | transferSyntaxes {ifRep : IfRep} (hif : registry.Serves elem.abstractSyntax ifRep)
      (hnone : ∀ t ∈ elem.transferSyntaxes, t ∉ ifRep.syntaxVector) :
    Answered registry elem
      (⟨pcontProviderRejection, some pprovProposedTransferSyntaxesNotSupported, zeroSyntax⟩, none)
  | accepted {ifRep : IfRep} {before after : List PresSyntaxId} {t : PresSyntaxId} {k ihint : ℕ}
      (hif : registry.Serves elem.abstractSyntax ifRep)
      (hsplit : elem.transferSyntaxes = before ++ t :: after)
      (hfirst : ∀ t' ∈ before, t' ∉ ifRep.syntaxVector)
      (hindex : ifRep.syntaxVector[k]? = some t) :
    Answered registry elem (⟨pcontAcceptance, none, t⟩,
      some ⟨ihint, elem.presContextId, k, ⟨ifRep.id, ifRep.vers⟩, ifRep.syntaxVector⟩)

/-- Each element has its answer, each accepted context is on the list of the association, and
is found there with its interface. -/
structure Negotiated (registry : IfRegistry) (syntaxList : List CnSyntax)
    (elems : List PresContElem) (out : Negotiation) : Prop where
  nResults : out.nResults = elems.length
  answers : ∃ answers, List.Forall₂ (Answered registry) elems answers ∧
    out.presResults = answers.map Prod.fst ∧
    out.syntaxList = syntaxList ++ answers.filterMap Prod.snd ∧
    ∀ added ∈ answers.filterMap Prod.snd, ∃ presContext,
      syntaxLkupById added.syntaxPresId out.syntaxList = some presContext ∧
      presContext.syntaxAbstractId = added.syntaxAbstractId

/-! ### The registry -/

theorem ifSearch_eq_some {a : PresSyntaxId} {n m : ℕ} {chain : List IfRep} {ifRep : IfRep}
    (h : ifSearch a n chain = some (m, ifRep)) :
    ∃ before after, chain = before ++ ifRep :: after ∧ Compatible a ifRep ∧
      ∀ entry ∈ before, ¬ Compatible a entry := by
  induction chain generalizing n with
  | nil => cases h
  | cons entry chain ih =>
    rw [ifSearch] at h
    by_cases hcompat : ifIsCompatible a entry = true
    · rw [if_pos hcompat, Option.some_inj, Prod.mk.injEq] at h
      obtain ⟨-, rfl⟩ := h
      exact ⟨[], chain, rfl, hcompat, by simp⟩
    · rw [if_neg hcompat] at h
      obtain ⟨before, after, rfl, hif, hbefore⟩ := ih h
      exact ⟨entry :: before, after, rfl, hif, List.forall_mem_cons.mpr ⟨hcompat, hbefore⟩⟩

theorem ifSearch_eq_none {a : PresSyntaxId} {n : ℕ} {chain : List IfRep} :
    ifSearch a n chain = none ↔ ∀ entry ∈ chain, ¬ Compatible a entry := by
  induction chain generalizing n with
  | nil => simp [ifSearch]
  | cons entry chain ih =>
    rw [ifSearch, List.forall_mem_cons]
    by_cases hcompat : ifIsCompatible a entry = true
    · simp [hcompat, Compatible]
    · rw [if_neg hcompat, ih]
      simp [hcompat, Compatible]

theorem Compatible.id_eq {a : PresSyntaxId} {ifRep : IfRep} (h : Compatible a ifRep) :
    ifRep.id = a.id := by
  rw [Compatible, ifIsCompatible, uuidEqual_eq] at h
  simp only [Bool.and_eq_true, decide_eq_true_eq, Option.some_inj] at h
  exact h.1.1

/-- Interfaces for one abstract syntax are on one list. -/
theorem IfRegistry.index_eq (registry : IfRegistry) {a : PresSyntaxId} {ifRep : IfRep} {i : ℕ}
    (hmem : ifRep ∈ registry.chain i) (hcompat : Compatible a ifRep) : ifIndex a.id = some i := by
  rw [← hcompat.id_eq]
  exact registry.hashed i ifRep hmem

theorem ifLookup_eq_none {a : PresSyntaxId} : ifLookup registry a = none ↔ registry.Lacks a := by
  obtain ⟨hash, hhash⟩ := exists_uuidHash a.id
  have hindex : ifIndex a.id = some (hash % ifRegistrySize) := by rw [ifIndex, hhash]; rfl
  rw [ifLookup, hindex]
  simp only [Option.bind_eq_bind, Option.bind_some, Option.bind_eq_none_iff]
  constructor
  · rintro h i ifRep hmem hcompat
    have hi : hash % ifRegistrySize = i :=
      Option.some_inj.mp (hindex.symm.trans (registry.index_eq hmem hcompat))
    cases hsearch : ifSearch a 1 (registry.chain (hash % ifRegistrySize)) with
    | none => exact ifSearch_eq_none.mp hsearch ifRep (hi ▸ hmem) hcompat
    | some found => exact absurd (h found hsearch) (by simp)
  · rintro h found hsearch
    rw [ifSearch_eq_none.mpr fun entry hentry => h _ entry hentry] at hsearch
    cases hsearch

theorem serves_of_ifLookup {a : PresSyntaxId} {ihint : ℕ} {ifRep : IfRep}
    (h : ifLookup registry a = some (ihint, ifRep)) : registry.Serves a ifRep := by
  rw [ifLookup] at h
  simp only [Option.bind_eq_bind, Option.bind_eq_some_iff, Prod.exists, Option.some_inj,
    Prod.mk.injEq] at h
  obtain ⟨index, -, entryCount, found, hsearch, -, rfl⟩ := h
  obtain ⟨before, after, hchain, hcompat, hbefore⟩ := ifSearch_eq_some hsearch
  exact ⟨index, before, after, hchain, hcompat, hbefore⟩

/-- The first compatible interface is unique. -/
theorem split_unique {α : Type*} {P : α → Prop} {before before' after after' : List α} {x x' : α}
    (h : before ++ x :: after = before' ++ x' :: after') (hx : P x) (hx' : P x')
    (hbefore : ∀ y ∈ before, ¬ P y) (hbefore' : ∀ y ∈ before', ¬ P y) : x = x' := by
  induction before generalizing before' with
  | nil =>
    cases before' with
    | nil => exact (List.cons.inj h).1
    | cons y before' =>
      have hy : x = y := (List.cons.inj h).1
      exact absurd (hy ▸ hx) (hbefore' y List.mem_cons_self)
  | cons y before ih =>
    cases before' with
    | nil =>
      have hy : y = x' := (List.cons.inj h).1
      exact absurd (hy.symm ▸ hx') (hbefore y List.mem_cons_self)
    | cons y' before' =>
      exact ih (List.cons.inj h).2 (fun z hz => hbefore z (List.mem_cons_of_mem _ hz))
        (fun z hz => hbefore' z (List.mem_cons_of_mem _ hz))

theorem IfRegistry.Serves.unique {a : PresSyntaxId} {ifRep ifRep' : IfRep}
    (h : registry.Serves a ifRep) (h' : registry.Serves a ifRep') : ifRep = ifRep' := by
  obtain ⟨i, before, after, hchain, hcompat, hbefore⟩ := h
  obtain ⟨i', before', after', hchain', hcompat', hbefore'⟩ := h'
  have hi : i = i' := by
    have hindex := registry.index_eq (hchain ▸ List.mem_append_right _ List.mem_cons_self) hcompat
    have hindex' := registry.index_eq (hchain' ▸ List.mem_append_right _ List.mem_cons_self) hcompat'
    exact Option.some_inj.mp (hindex.symm.trans hindex')
  subst hi
  exact split_unique (hchain.symm.trans hchain') hcompat hcompat' hbefore hbefore'

theorem IfRegistry.Serves.not_lacks {a : PresSyntaxId} {ifRep : IfRep}
    (h : registry.Serves a ifRep) : ¬ registry.Lacks a := by
  obtain ⟨i, before, after, hchain, hcompat, -⟩ := h
  exact fun hlacks => hlacks i ifRep (hchain ▸ List.mem_append_right _ List.mem_cons_self) hcompat

/-! ### Transfer syntaxes -/

theorem version_ext {v w : BitVec 32} (hlow : v &&& 0xFFFF = w &&& 0xFFFF)
    (hhigh : v >>> 16 = w >>> 16) : v = w := by
  have hmod (x : BitVec 32) : (x &&& 0xFFFF).toNat = x.toNat % 2 ^ 16 := by
    rw [BitVec.toNat_and]
    exact Nat.and_two_pow_sub_one_eq_mod x.toNat 16
  have hdiv (x : BitVec 32) : (x >>> 16).toNat = x.toNat / 2 ^ 16 := by
    rw [BitVec.toNat_ushiftRight, Nat.shiftRight_eq_div_pow]
  have hlow' : v.toNat % 2 ^ 16 = w.toNat % 2 ^ 16 := by rw [← hmod, ← hmod, hlow]
  have hhigh' : v.toNat / 2 ^ 16 = w.toNat / 2 ^ 16 := by rw [← hdiv, ← hdiv, hhigh]
  apply BitVec.eq_of_toNat_eq
  rw [← Nat.div_add_mod v.toNat (2 ^ 16), ← Nat.div_add_mod w.toNat (2 ^ 16), hlow', hhigh']

theorem syntaxEqual_iff {s t : PresSyntaxId} : syntaxEqual s t = true ↔ s = t := by
  obtain ⟨sid, sversion⟩ := s
  obtain ⟨tid, tversion⟩ := t
  rw [syntaxEqual, PresSyntaxId.mk.injEq]
  simp only [Bool.and_eq_true, decide_eq_true_eq]
  constructor
  · rintro ⟨⟨hid, hlow⟩, hhigh⟩
    exact ⟨hid, version_ext hlow hhigh⟩
  · rintro ⟨rfl, rfl⟩
    exact ⟨⟨rfl, rfl⟩, rfl⟩

theorem matchVector_eq_none {t : PresSyntaxId} {k : ℕ} {syntaxVector : List PresSyntaxId} :
    matchVector t k syntaxVector = none ↔ t ∉ syntaxVector := by
  induction syntaxVector generalizing k with
  | nil => simp [matchVector]
  | cons syntaxId syntaxIds ih =>
    rw [matchVector, List.mem_cons, not_or]
    by_cases heq : t = syntaxId
    · rw [if_pos (syntaxEqual_iff.mpr heq)]
      simp [heq]
    · rw [if_neg fun h => heq (syntaxEqual_iff.mp h), ih]
      simp [heq]

theorem matchVector_eq_some {t : PresSyntaxId} {k m : ℕ} {syntaxVector : List PresSyntaxId}
    (h : matchVector t k syntaxVector = some m) : ∃ j, m = k + j ∧ syntaxVector[j]? = some t := by
  induction syntaxVector generalizing k with
  | nil => cases h
  | cons syntaxId syntaxIds ih =>
    rw [matchVector] at h
    by_cases heq : syntaxEqual t syntaxId = true
    · rw [if_pos heq, Option.some_inj] at h
      exact ⟨0, h.symm, by rw [syntaxEqual_iff.mp heq]; rfl⟩
    · rw [if_neg heq] at h
      obtain ⟨j, rfl, hj⟩ := ih h
      exact ⟨j + 1, by omega, hj⟩

theorem matchSyntaxes_eq_none {syntaxVector ts : List PresSyntaxId} :
    matchSyntaxes syntaxVector ts = none ↔ ∀ t ∈ ts, t ∉ syntaxVector := by
  induction ts with
  | nil => simp [matchSyntaxes]
  | cons t ts ih =>
    rw [matchSyntaxes, List.forall_mem_cons]
    cases hmatch : matchVector t 0 syntaxVector with
    | none => simp [matchVector_eq_none.mp hmatch, ih]
    | some k =>
      have hmem : ¬ t ∉ syntaxVector := fun hno => by
        rw [matchVector_eq_none.mpr hno] at hmatch
        cases hmatch
      simp [hmem]

theorem matchSyntaxes_eq_some {syntaxVector ts : List PresSyntaxId} {t : PresSyntaxId} {k : ℕ}
    (h : matchSyntaxes syntaxVector ts = some (t, k)) :
    matchVector t 0 syntaxVector = some k ∧ ∃ before after, ts = before ++ t :: after ∧
      ∀ t' ∈ before, t' ∉ syntaxVector := by
  induction ts with
  | nil => cases h
  | cons t' ts ih =>
    rw [matchSyntaxes] at h
    cases hmatch : matchVector t' 0 syntaxVector with
    | some k' =>
      rw [hmatch, Option.some_inj, Prod.mk.injEq] at h
      obtain ⟨rfl, rfl⟩ := h
      exact ⟨hmatch, [], ts, rfl, by simp⟩
    | none =>
      rw [hmatch] at h
      obtain ⟨hk, before, after, rfl, hbefore⟩ := ih h
      exact ⟨hk, t' :: before, after, rfl,
        List.forall_mem_cons.mpr ⟨matchVector_eq_none.mp hmatch, hbefore⟩⟩

/-! ### Requests -/

/-- The interface and the transfer syntax, with its index, that an element gets. -/
def commonSyntax (registry : IfRegistry) (elem : PresContElem) :
    Option (IfRep × PresSyntaxId × ℕ) := do
  let (_, ifRep) ← ifLookup registry elem.abstractSyntax
  let (transferSyntax, k) ← matchSyntaxes ifRep.syntaxVector elem.transferSyntaxes
  some (ifRep, transferSyntax, k)

/-- Two elements for which the same interface, or none, is found, with the same common transfer
syntax, or none, and with the same context if there is one. -/
structure SameRequest (registry : IfRegistry) (elem elem' : PresContElem) : Prop where
  abstractSyntax : ifLookup registry elem'.abstractSyntax = none ↔
    ifLookup registry elem.abstractSyntax = none
  common : commonSyntax registry elem' = commonSyntax registry elem
  presContextId : commonSyntax registry elem ≠ none → elem'.presContextId = elem.presContextId

/-- The index of the transfer syntax still selects it when it is cut to 16 bits. -/
def IndexFits (registry : IfRegistry) (elem : PresContElem) : Prop :=
  ∀ ifRep t k, commonSyntax registry elem = some (ifRep, t, k) →
    ifRep.syntaxVector[k % 2 ^ 16]? = some t

theorem commonSyntax_of_lookup {ihint : ℕ} {ifRep : IfRep}
    (h : ifLookup registry elem.abstractSyntax = some (ihint, ifRep)) :
    commonSyntax registry elem
      = (matchSyntaxes ifRep.syntaxVector elem.transferSyntaxes).map fun m => (ifRep, m.1, m.2) := by
  rw [commonSyntax, h]
  dsimp only [Option.bind_eq_bind, Option.bind_some]
  cases matchSyntaxes ifRep.syntaxVector elem.transferSyntaxes <;> rfl

theorem commonSyntax_of_lacks (h : ifLookup registry elem.abstractSyntax = none) :
    commonSyntax registry elem = none := by
  rw [commonSyntax, h]
  rfl

/-- The interface that is found is the one that is registered. -/
theorem exists_ifLookup {ifRep : IfRep} (h : registry.Serves elem.abstractSyntax ifRep) :
    ∃ ihint, ifLookup registry elem.abstractSyntax = some (ihint, ifRep) := by
  cases hlookup : ifLookup registry elem.abstractSyntax with
  | none => exact absurd (ifLookup_eq_none.mp hlookup) h.not_lacks
  | some found =>
    obtain ⟨ihint, ifRep'⟩ := found
    exact ⟨ihint, by rw [(serves_of_ifLookup hlookup).unique h]⟩

theorem answered_abstractSyntax_iff :
    Answered registry elem
        (⟨pcontProviderRejection, some pprovAbstractSyntaxNotSupported, zeroSyntax⟩, none) ↔
      ifLookup registry elem.abstractSyntax = none := by
  rw [ifLookup_eq_none]
  constructor
  · intro h
    generalize hanswer : (PresResult.mk pcontProviderRejection
      (some pprovAbstractSyntaxNotSupported) zeroSyntax, none) = answer at h
    cases h with
    | abstractSyntax hif => exact hif
    | transferSyntaxes => cases hanswer
    | accepted => cases hanswer
  · exact Answered.abstractSyntax

theorem answered_transferSyntaxes_iff :
    Answered registry elem (⟨pcontProviderRejection,
        some pprovProposedTransferSyntaxesNotSupported, zeroSyntax⟩, none) ↔
      ifLookup registry elem.abstractSyntax ≠ none ∧ commonSyntax registry elem = none := by
  constructor
  · intro h
    generalize hanswer : (PresResult.mk pcontProviderRejection
      (some pprovProposedTransferSyntaxesNotSupported) zeroSyntax, none) = answer at h
    cases h with
    | abstractSyntax => cases hanswer
    | transferSyntaxes hif hnone =>
      obtain ⟨ihint, hlookup⟩ := exists_ifLookup hif
      rw [commonSyntax_of_lookup hlookup, matchSyntaxes_eq_none.mpr hnone, hlookup]
      exact ⟨Option.some_ne_none _, rfl⟩
    | accepted => cases hanswer
  · rintro ⟨hlookup, hcommon⟩
    obtain ⟨⟨ihint, ifRep⟩, hlookup⟩ := Option.ne_none_iff_exists'.mp hlookup
    rw [commonSyntax_of_lookup hlookup, Option.map_eq_none_iff] at hcommon
    exact .transferSyntaxes (serves_of_ifLookup hlookup) (matchSyntaxes_eq_none.mp hcommon)

theorem answered_accepted_iff {ifRep : IfRep} {t : PresSyntaxId} {k ihint : ℕ} {id : BitVec 16} :
    Answered registry elem (⟨pcontAcceptance, none, t⟩,
        some ⟨ihint, id, k, ⟨ifRep.id, ifRep.vers⟩, ifRep.syntaxVector⟩) ↔
      (∃ m, commonSyntax registry elem = some (ifRep, t, m)) ∧ id = elem.presContextId ∧
        ifRep.syntaxVector[k]? = some t := by
  constructor
  · intro h
    generalize hanswer : (PresResult.mk pcontAcceptance none t, some (CnSyntax.mk ihint id k
      ⟨ifRep.id, ifRep.vers⟩ ifRep.syntaxVector)) = answer at h
    cases h with
    | abstractSyntax => cases hanswer
    | transferSyntaxes => cases hanswer
    | @accepted ifRep' before after _ _ _ hif hsplit hfirst hindex =>
      have heq : ifRep = ifRep' := by
        cases ifRep
        cases ifRep'
        cases hanswer
        rfl
      subst heq
      cases hanswer
      obtain ⟨hint, hlookup⟩ := exists_ifLookup hif
      refine ⟨?_, rfl, hindex⟩
      rw [commonSyntax_of_lookup hlookup]
      have hmem : t ∈ ifRep.syntaxVector := List.mem_of_getElem? hindex
      cases hmatch : matchSyntaxes ifRep.syntaxVector elem.transferSyntaxes with
      | none =>
        refine absurd hmem (matchSyntaxes_eq_none.mp hmatch t ?_)
        rw [hsplit]
        exact List.mem_append_right _ List.mem_cons_self
      | some found =>
        obtain ⟨t', m⟩ := found
        obtain ⟨hm, before', after', hsplit', hfirst'⟩ := matchSyntaxes_eq_some hmatch
        have hmem' : t' ∈ ifRep.syntaxVector := by
          obtain ⟨j, -, hj⟩ := matchVector_eq_some hm
          exact List.mem_of_getElem? hj
        have htt : t = t' := split_unique (P := (· ∈ ifRep.syntaxVector)) (hsplit.symm.trans hsplit')
          hmem hmem' hfirst hfirst'
        exact ⟨m, by rw [htt]; rfl⟩
  · rintro ⟨⟨m, hcommon⟩, rfl, hindex⟩
    rw [commonSyntax] at hcommon
    simp only [Option.bind_eq_bind, Option.bind_eq_some_iff, Prod.exists, Option.some_inj,
      Prod.mk.injEq] at hcommon
    obtain ⟨hint, ifRep', hlookup, t', m', hmatch, rfl, rfl, rfl⟩ := hcommon
    obtain ⟨-, before, after, hsplit, hfirst⟩ := matchSyntaxes_eq_some hmatch
    exact .accepted (serves_of_ifLookup hlookup) hsplit hfirst hindex

/-- The interface and the transfer syntax determine the index. -/
theorem commonSyntax_index {ifRep : IfRep} {t : PresSyntaxId} {k : ℕ}
    (h : commonSyntax registry elem = some (ifRep, t, k)) :
    matchVector t 0 ifRep.syntaxVector = some k := by
  rw [commonSyntax] at h
  simp only [Option.bind_eq_bind, Option.bind_eq_some_iff, Prod.exists, Option.some_inj,
    Prod.mk.injEq] at h
  obtain ⟨hint, ifRep', -, t', m', hmatch, rfl, rfl, rfl⟩ := h
  exact (matchSyntaxes_eq_some hmatch).1

/-- The answer to an element, by what it gets. -/
theorem negotiateElem_of_common {ihint : ℕ} {ifRep : IfRep} {t : PresSyntaxId} {k : ℕ}
    (hlookup : ifLookup registry elem.abstractSyntax = some (ihint, ifRep))
    (hmatch : matchSyntaxes ifRep.syntaxVector elem.transferSyntaxes = some (t, k)) :
    negotiateElem registry elem = (⟨pcontAcceptance, none, t⟩, some ⟨ihint, elem.presContextId,
      k % 2 ^ 16, ⟨ifRep.id, ifRep.vers⟩, ifRep.syntaxVector⟩) := by
  rw [negotiateElem, hlookup]
  dsimp only
  rw [hmatch]

/-- The negotiation of `elem'` answers `elem`. -/
theorem answered_iff : Answered registry elem (negotiateElem registry elem') ↔
    SameRequest registry elem elem' ∧ IndexFits registry elem := by
  cases hlookup : ifLookup registry elem'.abstractSyntax with
  | none =>
    have hcommon := commonSyntax_of_lacks hlookup
    rw [negotiateElem, hlookup, answered_abstractSyntax_iff]
    constructor
    · intro h
      have helem := commonSyntax_of_lacks h
      exact ⟨⟨iff_of_true hlookup h, hcommon.trans helem.symm, fun hne => absurd helem hne⟩,
        fun _ _ _ hsome => by rw [helem] at hsome; cases hsome⟩
    · exact fun h => h.1.abstractSyntax.mp hlookup
  | some found =>
    obtain ⟨ihint, ifRep⟩ := found
    have hcommon := commonSyntax_of_lookup hlookup
    have hfound : ifLookup registry elem'.abstractSyntax ≠ none := by
      rw [hlookup]
      exact Option.some_ne_none _
    cases hmatch : matchSyntaxes ifRep.syntaxVector elem'.transferSyntaxes with
    | none =>
      rw [hmatch, Option.map_none] at hcommon
      have hanswer : negotiateElem registry elem' = (⟨pcontProviderRejection,
          some pprovProposedTransferSyntaxesNotSupported, zeroSyntax⟩, none) := by
        rw [negotiateElem, hlookup]
        dsimp only
        rw [hmatch]
      rw [hanswer, answered_transferSyntaxes_iff]
      constructor
      · rintro ⟨hne, helem⟩
        exact ⟨⟨iff_of_false hfound hne, hcommon.trans helem.symm, fun h => absurd helem h⟩,
          fun _ _ _ hsome => by rw [helem] at hsome; cases hsome⟩
      · rintro ⟨hsame, -⟩
        exact ⟨fun h => hfound (hsame.abstractSyntax.mpr h), hsame.common.symm.trans hcommon⟩
    | some match₀ =>
      obtain ⟨t, k⟩ := match₀
      rw [hmatch, Option.map_some] at hcommon
      rw [negotiateElem_of_common hlookup hmatch, answered_accepted_iff]
      constructor
      · rintro ⟨⟨m, helem⟩, hid, hindex⟩
        have hkm : k = m := by
          have hk := commonSyntax_index hcommon
          rw [commonSyntax_index helem, Option.some_inj] at hk
          exact hk.symm
        subst hkm
        refine ⟨⟨iff_of_false hfound ?_, hcommon.trans helem.symm, fun _ => hid⟩, ?_⟩
        · intro h
          rw [commonSyntax_of_lacks h] at helem
          cases helem
        · intro ifRep' t' k' h
          rw [helem, Option.some_inj, Prod.mk.injEq, Prod.mk.injEq] at h
          obtain ⟨rfl, rfl, rfl⟩ := h
          exact hindex
      · rintro ⟨hsame, hfits⟩
        have helem := hsame.common.symm.trans hcommon
        exact ⟨⟨k, helem⟩, hsame.presContextId (by rw [helem]; exact Option.some_ne_none _),
          hfits ifRep t k helem⟩

/-! ### The list -/

/-- The elements as the negotiation takes them from an array. -/
def arrayElems (mem : ℕ → UInt8) : List PresContElem :=
  (List.range (nContextElem mem)).map fun i =>
    presContElemAt mem (presContElemStart + sizeofPresContElem * i)

theorem negotiateFrom_eq (n i : ℕ) (lists : List PresResult × List CnSyntax) :
    negotiateFrom registry mem n i lists
      = let answers := (List.range' i n).map fun i => negotiateElem registry
          (presContElemAt mem (presContElemStart + sizeofPresContElem * i))
        (lists.1 ++ answers.map Prod.fst, lists.2 ++ answers.filterMap Prod.snd) := by
  induction n generalizing i lists with
  | zero => simp [negotiateFrom]
  | succ n ih =>
    obtain ⟨presResults, syntaxList⟩ := lists
    rw [negotiateFrom, List.range'_succ, List.map_cons]
    dsimp only
    rw [List.map_cons, List.filterMap_cons]
    generalize negotiateElem registry
      (presContElemAt mem (presContElemStart + sizeofPresContElem * i)) = answer
    obtain ⟨presResult, added⟩ := answer
    dsimp only
    rw [ih]
    cases added <;> simp

/-- The negotiation, element by element. -/
theorem syntaxNegotiate_eq {size : ℕ} (hsize : 4 + 24 * nContextElem mem ≤ size) :
    syntaxNegotiate registry syntaxList mem size = some {
      size := 4 + 24 * nContextElem mem
      nResults := nContextElem mem
      presResults := ((arrayElems mem).map (negotiateElem registry)).map Prod.fst
      syntaxList := syntaxList ++
        ((arrayElems mem).map (negotiateElem registry)).filterMap Prod.snd } := by
  rw [syntaxNegotiate, if_neg hsize.not_gt, negotiateFrom_eq]
  simp only [arrayElems, List.range_eq_range', List.map_map, List.nil_append, Function.comp_def]

theorem length_presContElems (n off : ℕ) : (presContElems mem n off).length = n := by
  induction n generalizing off with
  | zero => rfl
  | succ n ih => rw [presContElems, List.length_cons, ih]

/-! ### Lookup by context -/

theorem lkupById_eq_find (id : BitVec 16) (list : List CnSyntax) :
    syntaxLkupById id list = list.find? fun c => c.syntaxPresId = id := by
  induction list with
  | nil => rfl
  | cons c list ih =>
    rw [syntaxLkupById, List.find?_cons, ih]
    by_cases h : c.syntaxPresId = id <;> simp [h]

/-- Entries that are added are found with their interface if no entry in front of them with
their context has another one. -/
theorem lkup_iff (list added : List CnSyntax) :
    (∀ c ∈ added, ∃ presContext, syntaxLkupById c.syntaxPresId (list ++ added) = some presContext ∧
      presContext.syntaxAbstractId = c.syntaxAbstractId) ↔
    ∀ c ∈ added, (∀ old, syntaxLkupById c.syntaxPresId list = some old →
        old.syntaxAbstractId = c.syntaxAbstractId) ∧
      ∀ c' ∈ added, c'.syntaxPresId = c.syntaxPresId → c'.syntaxAbstractId = c.syntaxAbstractId := by
  constructor
  · intro h c hc
    obtain ⟨found, hfound, habs⟩ := h c hc
    constructor
    · intro old hold
      rw [lkupById_eq_find] at hold hfound
      rw [List.find?_append, hold, Option.some_or, Option.some_inj] at hfound
      rw [hfound, habs]
    · intro c' hc' hid
      obtain ⟨found', hfound', habs'⟩ := h c' hc'
      rw [hid, hfound, Option.some_inj] at hfound'
      rw [← habs', ← hfound', habs]
  · intro h c hc
    obtain ⟨hold, hsame⟩ := h c hc
    rw [lkupById_eq_find, List.find?_append]
    cases hlist : list.find? (fun old => old.syntaxPresId = c.syntaxPresId) with
    | some old => exact ⟨old, rfl, hold old ((lkupById_eq_find _ _).trans hlist)⟩
    | none =>
      cases hadded : added.find? (fun c' => c'.syntaxPresId = c.syntaxPresId) with
      | none => exact absurd (List.find?_eq_none.mp hadded c hc) (by simp)
      | some c' =>
        have hid : c'.syntaxPresId = c.syntaxPresId := by simpa using List.find?_some hadded
        exact ⟨c', rfl, hsame c' (List.mem_of_find?_eq_some hadded) hid⟩

/-- No accepted context has that of an entry with another interface in front of it, or that of
another accepted context with another interface. -/
def Unshadowed (registry : IfRegistry) (list : List CnSyntax) (elems : List PresContElem) : Prop :=
  ∀ elem ∈ elems, ∀ ifRep t k, commonSyntax registry elem = some (ifRep, t, k) →
    (∀ old, syntaxLkupById elem.presContextId list = some old →
      old.syntaxAbstractId = ⟨ifRep.id, ifRep.vers⟩) ∧
    ∀ elem' ∈ elems, elem'.presContextId = elem.presContextId →
      ∀ ifRep' t' k', commonSyntax registry elem' = some (ifRep', t', k') →
        (⟨ifRep'.id, ifRep'.vers⟩ : PresSyntaxId) = ⟨ifRep.id, ifRep.vers⟩

/-- The entry is that of the element. -/
def EntryFor (registry : IfRegistry) (elem : PresContElem) (c : CnSyntax) : Prop :=
  ∃ ifRep t k, commonSyntax registry elem = some (ifRep, t, k) ∧
    c.syntaxPresId = elem.presContextId ∧ c.syntaxAbstractId = ⟨ifRep.id, ifRep.vers⟩

theorem Answered.entryFor {answer : PresResult × Option CnSyntax} {c : CnSyntax}
    (h : Answered registry elem answer) (hc : answer.2 = some c) : EntryFor registry elem c := by
  cases h with
  | abstractSyntax => cases hc
  | transferSyntaxes => cases hc
  | @accepted ifRep before after t k ihint hif hsplit hfirst hindex =>
    obtain rfl := Option.some_inj.mp hc
    obtain ⟨⟨m, hcommon⟩, -, -⟩ := answered_accepted_iff.mp
      (@Answered.accepted _ _ ifRep before after t k ihint hif hsplit hfirst hindex)
    exact ⟨ifRep, t, m, hcommon, rfl, rfl⟩

theorem Answered.exists_entry {answer : PresResult × Option CnSyntax} {r : IfRep × PresSyntaxId × ℕ}
    (h : Answered registry elem answer) (hcommon : commonSyntax registry elem = some r) :
    ∃ c, answer.2 = some c := by
  cases h with
  | abstractSyntax hif =>
    rw [commonSyntax_of_lacks (ifLookup_eq_none.mpr hif)] at hcommon
    cases hcommon
  | transferSyntaxes hif hnone =>
    rw [(answered_transferSyntaxes_iff.mp (.transferSyntaxes hif hnone)).2] at hcommon
    cases hcommon
  | accepted => exact ⟨_, rfl⟩

/-- The entries of a list of answers are those of the elements. -/
theorem entries_of_answers {elems : List PresContElem} {answers : List (PresResult × Option CnSyntax)}
    (h : List.Forall₂ (Answered registry) elems answers) :
    (∀ c ∈ answers.filterMap Prod.snd, ∃ elem ∈ elems, EntryFor registry elem c) ∧
    ∀ elem ∈ elems, ∀ r, commonSyntax registry elem = some r →
      ∃ c ∈ answers.filterMap Prod.snd, EntryFor registry elem c := by
  induction h with
  | nil => simp
  | @cons elem answer elems answers hanswer _ ih =>
    obtain ⟨hentries, helems⟩ := ih
    have hsub : ∀ c ∈ answers.filterMap Prod.snd, c ∈ (answer :: answers).filterMap Prod.snd := by
      intro c hc
      rw [List.mem_filterMap] at hc ⊢
      obtain ⟨a, ha, hac⟩ := hc
      exact ⟨a, List.mem_cons_of_mem _ ha, hac⟩
    constructor
    · intro c hc
      obtain ⟨a, ha, hac⟩ := List.mem_filterMap.mp hc
      rcases List.mem_cons.mp ha with rfl | ha
      · exact ⟨elem, List.mem_cons_self, hanswer.entryFor hac⟩
      · obtain ⟨e, he, hentry⟩ := hentries c (List.mem_filterMap.mpr ⟨a, ha, hac⟩)
        exact ⟨e, List.mem_cons_of_mem _ he, hentry⟩
    · intro e he r hr
      rcases List.mem_cons.mp he with rfl | he
      · obtain ⟨c, hc⟩ := hanswer.exists_entry hr
        exact ⟨c, List.mem_filterMap.mpr ⟨answer, List.mem_cons_self, hc⟩, hanswer.entryFor hc⟩
      · obtain ⟨c, hc, hentry⟩ := helems e he r hr
        exact ⟨c, hsub c hc, hentry⟩

/-- The contexts are found again exactly if none is shadowed. -/
theorem lkup_answers_iff {elems : List PresContElem}
    {answers : List (PresResult × Option CnSyntax)}
    (h : List.Forall₂ (Answered registry) elems answers) :
    (∀ c ∈ answers.filterMap Prod.snd, ∃ presContext,
        syntaxLkupById c.syntaxPresId (syntaxList ++ answers.filterMap Prod.snd) = some presContext ∧
        presContext.syntaxAbstractId = c.syntaxAbstractId) ↔
      Unshadowed registry syntaxList elems := by
  obtain ⟨hentries, helems⟩ := entries_of_answers h
  rw [lkup_iff]
  constructor
  · intro hlkup elem helem ifRep t k hcommon
    obtain ⟨c, hc, ifRep₀, t₀, k₀, hcommon₀, hid, habs⟩ := helems elem helem _ hcommon
    rw [hcommon, Option.some_inj, Prod.mk.injEq] at hcommon₀
    obtain ⟨rfl, -⟩ := hcommon₀
    obtain ⟨hold, hsame⟩ := hlkup c hc
    rw [hid, habs] at hold
    refine ⟨hold, ?_⟩
    intro elem' helem' hid' ifRep' t' k' hcommon'
    obtain ⟨c', hc', ifRep₁, t₁, k₁, hcommon₁, hid₁, habs₁⟩ := helems elem' helem' _ hcommon'
    rw [hcommon', Option.some_inj, Prod.mk.injEq] at hcommon₁
    obtain ⟨rfl, -⟩ := hcommon₁
    rw [← habs₁, ← habs]
    exact hsame c' hc' (by rw [hid₁, hid, hid'])
  · intro hun c hc
    obtain ⟨elem, helem, ifRep, t, k, hcommon, hid, habs⟩ := hentries c hc
    obtain ⟨hold, hsame⟩ := hun elem helem ifRep t k hcommon
    rw [hid, habs]
    refine ⟨hold, ?_⟩
    intro c' hc' hid'
    obtain ⟨elem', helem', ifRep', t', k', hcommon', hid₁, habs₁⟩ := hentries c' hc'
    rw [habs₁]
    exact hsame elem' helem' (hid₁.symm.trans hid') ifRep' t' k' hcommon'

/-- There is an entry for the accepted contexts only. -/
def Proper (answer : PresResult × Option CnSyntax) : Prop :=
  answer.2.isSome = true ↔ answer.1.result = pcontAcceptance

theorem Answered.proper {answer : PresResult × Option CnSyntax} (h : Answered registry elem answer) :
    Proper answer := by
  cases h with
  | abstractSyntax => exact iff_of_false Bool.false_ne_true (by decide)
  | transferSyntaxes => exact iff_of_false Bool.false_ne_true (by decide)
  | accepted => exact iff_of_true rfl rfl

theorem negotiateElem_proper (elem : PresContElem) : Proper (negotiateElem registry elem) := by
  rw [negotiateElem]
  split
  · exact iff_of_false Bool.false_ne_true (by decide)
  · split
    · exact iff_of_false Bool.false_ne_true (by decide)
    · exact iff_of_true rfl rfl

theorem proper_of_answered {elems : List PresContElem}
    {answers : List (PresResult × Option CnSyntax)}
    (h : List.Forall₂ (Answered registry) elems answers) : ∀ a ∈ answers, Proper a := by
  induction h with
  | nil => simp
  | cons hanswer _ ih => exact List.forall_mem_cons.mpr ⟨hanswer.proper, ih⟩

/-- The results and the entries tell the answers. -/
theorem answers_ext {answers answers' : List (PresResult × Option CnSyntax)}
    (h : ∀ a ∈ answers, Proper a) (h' : ∀ a ∈ answers', Proper a)
    (hresults : answers.map Prod.fst = answers'.map Prod.fst)
    (hentries : answers.filterMap Prod.snd = answers'.filterMap Prod.snd) : answers = answers' := by
  induction answers generalizing answers' with
  | nil => exact (List.map_eq_nil_iff.mp hresults.symm).symm
  | cons a answers ih =>
    obtain ⟨result, entry⟩ := a
    obtain ⟨⟨result', entry'⟩, answers', rfl, hresult, htail⟩ :=
      List.map_eq_cons_iff.mp hresults.symm
    obtain rfl : result' = result := hresult
    obtain ⟨hproper, hrest⟩ := List.forall_mem_cons.mp h
    obtain ⟨hproper', hrest'⟩ := List.forall_mem_cons.mp h'
    have hsome : entry.isSome = true ↔ entry'.isSome = true := hproper.trans hproper'.symm
    cases entry with
    | none =>
      cases entry' with
      | none => rw [ih hrest hrest' htail.symm hentries]
      | some c' => exact absurd (hsome.mpr rfl) Bool.false_ne_true
    | some c =>
      cases entry' with
      | none => exact absurd (hsome.mp rfl) Bool.false_ne_true
      | some c' =>
        obtain ⟨rfl, hlist⟩ := List.cons.inj hentries
        rw [ih hrest hrest' htail.symm hlist]

/-- The answers of the negotiation are those of the list if the array has the same requests. -/
theorem answered_arrayElems_iff :
    List.Forall₂ (Answered registry) (presContList mem)
        ((arrayElems mem).map (negotiateElem registry)) ↔
      List.Forall₂ (SameRequest registry) (presContList mem) (arrayElems mem) ∧
        ∀ elem ∈ presContList mem, IndexFits registry elem := by
  rw [List.forall₂_map_right_iff, and_comm, ← List.forall₂_and_left]
  simp only [answered_iff, and_comm]

/-- The answers of a negotiation are unique. -/
theorem Negotiated.answered {size : ℕ} {out : Negotiation}
    (hout : syntaxNegotiate registry syntaxList mem size = some out)
    (h : Negotiated registry syntaxList (presContList mem) out) :
    4 + 24 * nContextElem mem ≤ size ∧
      List.Forall₂ (Answered registry) (presContList mem)
        ((arrayElems mem).map (negotiateElem registry)) ∧
      Unshadowed registry syntaxList (presContList mem) := by
  have hsize : 4 + 24 * nContextElem mem ≤ size := by
    by_contra hsize
    rw [syntaxNegotiate, if_pos (not_le.mp hsize)] at hout
    cases hout
  rw [syntaxNegotiate_eq hsize, Option.some_inj] at hout
  obtain ⟨answers, hall, hresults, hlist, hlkup⟩ := h.answers
  subst hout
  have heq : answers = (arrayElems mem).map (negotiateElem registry) := by
    refine answers_ext (proper_of_answered hall) ?_ hresults.symm
      (List.append_cancel_left hlist.symm)
    intro answer hanswer
    obtain ⟨elem, -, rfl⟩ := List.mem_map.mp hanswer
    exact negotiateElem_proper elem
  subst heq
  exact ⟨hsize, hall, (lkup_answers_iff hall).mp hlkup⟩

/-- The negotiation answers the list of the request if the array has the same requests, the
results fit, and no context is shadowed. -/
theorem negotiated_iff (registry : IfRegistry) (syntaxList : List CnSyntax) (mem : ℕ → UInt8)
    (size : ℕ) :
    (∃ out, syntaxNegotiate registry syntaxList mem size = some out ∧
      Negotiated registry syntaxList (presContList mem) out) ↔
    4 + 24 * nContextElem mem ≤ size ∧
      List.Forall₂ (SameRequest registry) (presContList mem) (arrayElems mem) ∧
      (∀ elem ∈ presContList mem, IndexFits registry elem) ∧
      Unshadowed registry syntaxList (presContList mem) := by
  constructor
  · rintro ⟨out, hout, hnegotiated⟩
    obtain ⟨hsize, hall, hun⟩ := hnegotiated.answered hout
    obtain ⟨hsame, hfits⟩ := answered_arrayElems_iff.mp hall
    exact ⟨hsize, hsame, hfits, hun⟩
  · rintro ⟨hsize, hsame, hfits, hun⟩
    have hall := answered_arrayElems_iff.mpr ⟨hsame, hfits⟩
    exact ⟨_, syntaxNegotiate_eq hsize, (length_presContElems _ _).symm, _, hall, rfl, rfl,
      (lkup_answers_iff hall).mpr hun⟩

theorem sameRequest_refl (elem : PresContElem) : SameRequest registry elem elem :=
  ⟨Iff.rfl, rfl, fun _ => rfl⟩

/-- Behind elements with one transfer syntax each, the array is the list. -/
theorem presContElems_eq (n i : ℕ)
    (hsingle : ∀ j, j + 1 < n → (presContElemAt mem
      (presContElemStart + sizeofPresContElem * (i + j))).transferSyntaxes.length = 1) :
    presContElems mem n (presContElemStart + sizeofPresContElem * i)
      = (List.range' i n).map fun j =>
          presContElemAt mem (presContElemStart + sizeofPresContElem * j) := by
  induction n generalizing i with
  | zero => rfl
  | succ n ih =>
    rw [presContElems, List.range'_succ, List.map_cons]
    congr 1
    cases n with
    | zero => rfl
    | succ n =>
      have hone := hsingle 0 (by omega)
      rw [Nat.add_zero] at hone
      have hnext : presContElemStart + sizeofPresContElem * i + 24 + 20 * 1
          = presContElemStart + sizeofPresContElem * (i + 1) := by
        rw [sizeofPresContElem]
        ring
      rw [hone, hnext]
      refine ih (i + 1) fun j hj => ?_
      rw [Nat.add_assoc, Nat.add_comm 1 j]
      exact hsingle (j + 1) (by omega)

/-- The array is the list if each element of the array but the last has one transfer syntax. -/
theorem sameRequests_of_single (registry : IfRegistry)
    (hsingle : ∀ i, i + 1 < nContextElem mem → (presContElemAt mem
      (presContElemStart + sizeofPresContElem * i)).transferSyntaxes.length = 1) :
    List.Forall₂ (SameRequest registry) (presContList mem) (arrayElems mem) := by
  have heq : presContList mem = arrayElems mem := by
    have hlist := @presContElems_eq mem (nContextElem mem) 0
      (fun j hj => by rw [Nat.zero_add]; exact hsingle j hj)
    rw [arrayElems, List.range_eq_range', ← hlist]
    rfl
  rw [heq, List.forall₂_same]
  exact fun elem _ => sameRequest_refl elem

/-! ### A list with two transfer syntaxes in front -/

/-- A registry without interfaces. -/
def emptyRegistry : IfRegistry := ⟨fun _ => [], by simp⟩

/-- An interface with the nil UUID and one transfer syntax. -/
def someIf : IfRep := ⟨nilUuid, 1, [⟨nilUuid, 2⟩]⟩

/-- Two elements: context 0 with the transfer syntaxes 3 and 4 of the interface 5, and context 7
with the transfer syntax 2 of the interface 1. -/
def twoElems (i : ℕ) : UInt8 :=
  (([2, 0, 0, 0] : List UInt8) ++
    [0, 0, 2, 0] ++ List.replicate 16 0 ++ [5, 0, 0, 0] ++ List.replicate 16 0 ++ [3, 0, 0, 0] ++
      List.replicate 16 0 ++ [4, 0, 0, 0] ++
    [7, 0, 1, 0] ++ List.replicate 16 0 ++ [1, 0, 0, 0] ++ List.replicate 16 0 ++
      [2, 0, 0, 0]).getD i 0

/-- The interface of the second element is registered, with its transfer syntax, but the
context is not accepted. -/
theorem not_negotiated :
    ¬ ∃ out, syntaxNegotiate (emptyRegistry.registerIf someIf) [] twoElems 4096 = some out ∧
      Negotiated (emptyRegistry.registerIf someIf) [] (presContList twoElems) out := by
  rintro ⟨out, hout, hnegotiated⟩
  obtain ⟨-, hall, -⟩ := hnegotiated.answered hout
  have hsame := (answered_arrayElems_iff.mp hall).1
  have hlist : presContList twoElems = [presContElemAt twoElems 4, presContElemAt twoElems 68] := rfl
  have harray : arrayElems twoElems = [presContElemAt twoElems 4, presContElemAt twoElems 48] := rfl
  rw [hlist, harray, List.forall₂_cons, List.forall₂_cons] at hsame
  have hreal : ifLookup (emptyRegistry.registerIf someIf)
      (presContElemAt twoElems 68).abstractSyntax ≠ none := by decide
  have hmisread : ifLookup (emptyRegistry.registerIf someIf)
      (presContElemAt twoElems 48).abstractSyntax = none := by decide
  exact hreal (hsame.2.1.abstractSyntax.mp hmisread)

end Cn
