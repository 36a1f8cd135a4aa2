/-
What an interface lookup finds (comif.c).

* `chooseEntry_spec` — the entry: the hinted one if it is compatible, else the first one that is;
* `ifLookup_ok` — the result of a lookup whose hint is none or names the list of the interface;
* `not_byManagers` — lookups that turn out otherwise than by what is registered alone.
-/
import FreeDce.Com.IfRegistry

namespace Com

open Uuid Cn

/-! ### What a lookup is due -/

def Registry.Registered (registry : Registry) (e : RgyEntry) : Prop := ∃ i, e ∈ registry.chain i

/-- An interface with the identifier and the major version, and no lower minor version. -/
def CompatibleWith (a : PresSyntaxId) (e : RgyEntry) : Prop := Compatible a e.ifSpec.rep

/-- The manager that is registered for a type, or the default one. -/
def RgyEntry.manager (e : RgyEntry) (mgrType : Option UuidT) : Option ℕ :=
  match givenType mgrType with
  | none => e.defaultMepv
  | some type =>
    (e.typeInfoList.find? fun info => uuidEqual info.type type = some true).map TypeInfo.mepv

/-- There is no hint, or it names the list of the interface. -/
def HintOk (a : PresSyntaxId) (ihint : BitVec 16) : Prop :=
  ihint = invalidIhint ∨ ifIndex a.id = some (hintIndex ihint)

/-- The entry that a hint points at. -/
def Hinted (registry : Registry) (ihint : BitVec 16) (e : RgyEntry) : Prop :=
  ihint ≠ invalidIhint ∧ (registry.chain (hintIndex ihint))[hintCount ihint - 1]? = some e

/-- The compatible entry that is registered first. -/
def First (registry : Registry) (a : PresSyntaxId) (e : RgyEntry) : Prop :=
  ∃ i before after, registry.chain i = before ++ e :: after ∧ CompatibleWith a e ∧
    ∀ x ∈ before, ¬ CompatibleWith a x

/-- The entry of a lookup. -/
inductive Chosen (registry : Registry) (a : PresSyntaxId) (ihint : BitVec 16) (e : RgyEntry) : Prop
  | hinted (hhint : Hinted registry ihint e) (hcompat : CompatibleWith a e)
  | first (hfirst : First registry a e)
    (hnone : ∀ x, Hinted registry ihint x → ¬ CompatibleWith a x)

/-- A typed lookup of the management interface that finds no manager of the type. -/
def LastResort (req : Request) (e : RgyEntry) : Prop :=
  givenType req.mgrType ≠ none ∧ req.abstractSyntax.id = mgmtId ∧ e.manager req.mgrType = none

/-- The lookup has something to find: a manager, none being wanted of the default ones, or the
default manager as the last resort. -/
def Served (registry : Registry) (req : Request) (ihint : BitVec 16) : Prop :=
  ∃ e, Chosen registry req.abstractSyntax ihint e ∧
    ((e.manager req.mgrType).isSome ∨ givenType req.mgrType = none ∧ req.wantsMepv = false ∨
      LastResort req e ∧ ∃ e', First registry req.abstractSyntax e' ∧
        (req.wantsMepv = true → e'.defaultMepv.isSome))

/-- The interface and the managers that are returned are those of a compatible entry. -/
structure FoundAt (registry : Registry) (req : Request) (ifSpec : IfSpec) (sepv : ℕ)
    (mepv : Option ℕ) (e : RgyEntry) : Prop where
  registered : registry.Registered e
  compatible : CompatibleWith req.abstractSyntax e
  ifSpec : ifSpec = e.ifSpec
  sepv : sepv = e.ifSpec.serverEpv
  mepv : req.wantsMepv = true → mepv.isSome ∧ (mepv = e.manager req.mgrType ∨
    givenType req.mgrType ≠ none ∧ req.abstractSyntax.id = mgmtId ∧ mepv = e.defaultMepv)

structure LookupOk (registry : Registry) (req : Request) (ihint : BitVec 16) (r : LookupResult) :
    Prop where
  inTable : r ≠ .outOfTable
  unknownIf : r = .failed .unknownIf ↔
    ∀ e, registry.Registered e → ¬ CompatibleWith req.abstractSyntax e
  found : ∀ ihint' ifSpec sepv mepv, r = .found ihint' ifSpec sepv mepv →
    ∃ e, FoundAt registry req ifSpec sepv mepv e
  succeeds : (∃ ihint' ifSpec sepv mepv, r = .found ihint' ifSpec sepv mepv) ↔
    Served registry req ihint

variable {registry : Registry} {a : PresSyntaxId} {req : Request} {ihint ihint' : BitVec 16}
  {e e' : RgyEntry}

/-! ### The entry -/

theorem isCompatible_iff : isCompatible a e = true ↔ CompatibleWith a e := Iff.rfl

theorem CompatibleWith.index (h : CompatibleWith a e) (registry : Registry) {i : ℕ}
    (hmem : e ∈ registry.chain i) :
    ifIndex a.id = some i := by
  rw [← Compatible.id_eq h]
  exact registry.hashed i e hmem

theorem First.registered (h : First registry a e) : registry.Registered e := by
  obtain ⟨i, before, after, hchain, -, -⟩ := h
  exact ⟨i, by rw [hchain]; simp⟩

theorem First.compatible (h : First registry a e) : CompatibleWith a e := by
  obtain ⟨-, -, -, -, hcompat, -⟩ := h
  exact hcompat

theorem Chosen.registered (h : Chosen registry a ihint e) : registry.Registered e := by
  cases h with
  | hinted hhint _ => exact ⟨_, List.mem_of_getElem? hhint.2⟩
  | first hfirst _ => exact hfirst.registered

theorem Chosen.compatible (h : Chosen registry a ihint e) : CompatibleWith a e := by
  cases h with
  | hinted _ hcompat => exact hcompat
  | first hfirst _ => exact hfirst.compatible

theorem Chosen.of_invalid (h : Chosen registry a invalidIhint e) : First registry a e := by
  cases h with
  | hinted hhint _ => exact absurd rfl hhint.1
  | first hfirst _ => exact hfirst

theorem First.unique (h : First registry a e) (h' : First registry a e') : e = e' := by
  obtain ⟨i, before, after, hchain, hcompat, hbefore⟩ := h
  obtain ⟨i', before', after', hchain', hcompat', hbefore'⟩ := h'
  have hi : i = i' := by
    have hindex := hcompat.index registry (hchain ▸ List.mem_append_right _ List.mem_cons_self)
    have hindex' := hcompat'.index registry (hchain' ▸ List.mem_append_right _ List.mem_cons_self)
    exact Option.some_inj.mp (hindex.symm.trans hindex')
  subst hi
  rw [hchain] at hchain'
  exact split_unique hchain' hcompat hcompat' hbefore hbefore'

theorem Chosen.unique (h : Chosen registry a ihint e) (h' : Chosen registry a ihint e') :
    e = e' := by
  cases h with
  | hinted hhint hcompat =>
    cases h' with
    | hinted hhint' _ => exact Option.some_inj.mp (hhint.2.symm.trans hhint'.2)
    | first _ hnone => exact absurd hcompat (hnone e hhint)
  | first hfirst hnone =>
    cases h' with
    | hinted hhint hcompat => exact absurd hcompat (hnone e' hhint)
    | first hfirst' _ => exact hfirst.unique hfirst'

theorem searchList_eq_some {n m : ℕ} {entries : List RgyEntry}
    (h : searchList a n entries = some (m, e)) :
    ∃ before after, entries = before ++ e :: after ∧ CompatibleWith a e ∧
      ∀ x ∈ before, ¬ CompatibleWith a x := by
  induction entries generalizing n with
  | nil => cases h
  | cons x entries ih =>
    rw [searchList] at h
    by_cases hcompat : isCompatible a x = true
    · rw [if_pos hcompat, Option.some_inj, Prod.mk.injEq] at h
      obtain ⟨-, rfl⟩ := h
      exact ⟨[], entries, rfl, hcompat, fun x hx => absurd hx List.not_mem_nil⟩
    · rw [if_neg hcompat] at h
      obtain ⟨before, after, rfl, he, hbefore⟩ := ih h
      exact ⟨x :: before, after, rfl, he, List.forall_mem_cons.mpr ⟨hcompat, hbefore⟩⟩

theorem searchList_eq_none {n : ℕ} {entries : List RgyEntry} (h : searchList a n entries = none) :
    ∀ e ∈ entries, ¬ CompatibleWith a e := by
  induction entries generalizing n with
  | nil => exact fun e he => absurd he List.not_mem_nil
  | cons x entries ih =>
    rw [searchList] at h
    by_cases hcompat : isCompatible a x = true
    · rw [if_pos hcompat] at h
      cases h
    · rw [if_neg hcompat] at h
      exact List.forall_mem_cons.mpr ⟨hcompat, ih h⟩

/-- The index that `rpc__if_lookup` takes, and the place on the list if there is a hint. -/
theorem chooseEntry_eq (registry : Registry) (hhint : HintOk a ihint) : ∃ i place, i < ifRegistrySize ∧
    ifIndex a.id = some i ∧
    (∀ x, Hinted registry ihint x ↔ ∃ n, place = some n ∧ (registry.chain i)[n - 1]? = some x) ∧
    chooseEntry registry a ihint = match listEntry registry a i place with
      | none => .error (.failed .unknownIf)
      | some (n, e) => .ok (makeHint i n, e) := by
  obtain ⟨hash, hhash⟩ := exists_uuidHash a.id
  have hindex : ifIndex a.id = some (hash % ifRegistrySize) := by rw [ifIndex, hhash]; rfl
  have hlt : hash % ifRegistrySize < ifRegistrySize := Nat.mod_lt _ (by decide)
  by_cases hvalid : ihint = invalidIhint
  · refine ⟨hash % ifRegistrySize, none, hlt, hindex, fun x => ?_, ?_⟩
    · refine ⟨fun h => absurd hvalid h.1, ?_⟩
      rintro ⟨_, h, -⟩
      cases h
    · rw [chooseEntry, if_neg (not_not.mpr hvalid), hindex]
      exact if_neg (Nat.not_le.mpr hlt)
  · have hhash' : hash % ifRegistrySize = hintIndex ihint :=
      Option.some_inj.mp (hindex.symm.trans (hhint.resolve_left hvalid))
    refine ⟨hash % ifRegistrySize, some (hintCount ihint), hlt, hindex, fun x => ?_, ?_⟩
    · rw [Hinted, hhash']
      constructor
      · exact fun h => ⟨_, rfl, h.2⟩
      · rintro ⟨n, hn, h⟩
        cases hn
        exact ⟨hvalid, h⟩
    · rw [chooseEntry, if_pos hvalid, hhash']
      exact if_neg (by rw [← hhash']; exact Nat.not_le.mpr hlt)

theorem chooseEntry_spec (registry : Registry) (hhint : HintOk a ihint) :
    (chooseEntry registry a ihint = .error (.failed .unknownIf) ∧
      ∀ e, registry.Registered e → ¬ CompatibleWith a e) ∨
    ∃ ihint' e, chooseEntry registry a ihint = .ok (ihint', e) ∧ Chosen registry a ihint e := by
  obtain ⟨i, place, -, hindex, hhinted, hchoose⟩ := chooseEntry_eq registry hhint
  rw [hchoose]
  -- a hinted entry that is not compatible is as good as none
  by_cases hplace : ∃ x, Hinted registry ihint x ∧ CompatibleWith a x
  · obtain ⟨x, hx, hcompat⟩ := hplace
    obtain ⟨n, rfl, hget⟩ := (hhinted x).mp hx
    have hlist : listEntry registry a i (some n) = some (n, x) := by
      simp [listEntry, hget, isCompatible_iff.mpr hcompat]
    rw [hlist]
    exact Or.inr ⟨_, x, rfl, .hinted hx hcompat⟩
  · have hnone : ∀ x, Hinted registry ihint x → ¬ CompatibleWith a x :=
      fun x hx hcompat => hplace ⟨x, hx, hcompat⟩
    have hlist : listEntry registry a i place = searchList a 1 (registry.chain i) := by
      cases place with
      | none => simp [listEntry]
      | some n =>
        cases hget : (registry.chain i)[n - 1]? with
        | none => simp [listEntry, hget]
        | some x =>
          have hfalse : isCompatible a x = false :=
            Bool.eq_false_iff.mpr (hnone x ((hhinted x).mpr ⟨n, rfl, hget⟩))
          simp [listEntry, hget, hfalse]
    rw [hlist]
    cases hsearch : searchList a 1 (registry.chain i) with
    | none =>
      refine Or.inl ⟨rfl, fun e he hcompat => ?_⟩
      obtain ⟨j, hmem⟩ := he
      have hj : j = i := Option.some_inj.mp ((hcompat.index _ hmem).symm.trans hindex)
      exact searchList_eq_none hsearch e (hj ▸ hmem) hcompat
    | some found =>
      obtain ⟨n, e⟩ := found
      obtain ⟨before, after, hchain, hcompat, hbefore⟩ := searchList_eq_some hsearch
      exact Or.inr ⟨_, e, rfl, .first ⟨i, before, after, hchain, hcompat, hbefore⟩ hnone⟩

/-! ### The result -/

theorem lookupOk_found {r : LookupResult} {ifSpec : IfSpec} {sepv : ℕ} {mepv : Option ℕ}
    (hr : r = .found ihint' ifSpec sepv mepv) (hfound : FoundAt registry req ifSpec sepv mepv e)
    (hserved : Served registry req ihint) : LookupOk registry req ihint r := by
  subst hr
  refine ⟨by simp, ⟨nofun, fun h => ?_⟩, ?_, ⟨fun _ => hserved, fun _ => ?_⟩⟩
  · exact absurd hfound.compatible (h e hfound.registered)
  · rintro ihint' ifSpec' sepv' mepv' h
    cases h
    exact ⟨e, hfound⟩
  · exact ⟨_, _, _, _, rfl⟩

theorem lookupOk_failed {r : LookupResult} (hr : r = .failed .unknownMgrType)
    (hchosen : Chosen registry req.abstractSyntax ihint e) (hserved : ¬ Served registry req ihint) :
    LookupOk registry req ihint r := by
  subst hr
  refine ⟨by simp, ⟨nofun, fun h => ?_⟩, ?_, ⟨?_, fun h => absurd h hserved⟩⟩
  · exact absurd hchosen.compatible (h e hchosen.registered)
  · rintro ihint' ifSpec sepv mepv h
    cases h
  · rintro ⟨_, _, _, _, h⟩
    cases h

/-- A default manager that is wanted is found, or there is none. -/
theorem answerDefault_cases (wantsMepv : Bool) (ihint : BitVec 16) (e : RgyEntry) :
    (answerDefault wantsMepv ihint e = .failed .unknownMgrType ∧ wantsMepv = true ∧
      e.defaultMepv = none) ∨
    ∃ mepv, answerDefault wantsMepv ihint e = .found ihint e.ifSpec e.ifSpec.serverEpv mepv ∧
      (wantsMepv = true → mepv.isSome ∧ mepv = e.defaultMepv) := by
  cases wantsMepv with
  | false => exact Or.inr ⟨none, rfl, fun h => by cases h⟩
  | true =>
    cases hdefault : e.defaultMepv with
    | none => exact Or.inl ⟨by simp [answerDefault, hdefault], rfl, rfl⟩
    | some m => exact Or.inr ⟨some m, by simp [answerDefault, hdefault], fun _ => ⟨rfl, rfl⟩⟩

/-- A lookup with a manager type searches the types of the entry chosen. -/
theorem ifLookup_of_type {e : RgyEntry} {type : UuidT}
    (hchoose : chooseEntry registry req.abstractSyntax ihint = .ok (ihint', e))
    (hgiven : givenType req.mgrType = some type) :
    ifLookup registry req ihint = merge
      (match e.typeInfoList.find? fun info => uuidEqual info.type type = some true with
      | some info => .ok (.found ihint' e.ifSpec e.ifSpec.serverEpv
          (if req.wantsMepv then some info.mepv else none))
      | none =>
        if uuidEqual mgmtId req.abstractSyntax.id = some true then do
          let (ihint, e) ← chooseEntry registry req.abstractSyntax invalidIhint
          .ok (answerDefault req.wantsMepv ihint e)
        else .ok (.failed .unknownMgrType)) := by
  rw [ifLookup, hchoose, hgiven]
  rfl

theorem ifLookup_lookupOk (registry : Registry) (req : Request)
    (hhint : HintOk req.abstractSyntax ihint) :
    LookupOk registry req ihint (ifLookup registry req ihint) := by
  rcases chooseEntry_spec registry hhint with ⟨hchoose, hlacks⟩ | ⟨ihint', e, hchoose, hchosen⟩
  · -- no interface is compatible
    have hr : ifLookup registry req ihint = .failed .unknownIf := by rw [ifLookup, hchoose]; rfl
    rw [hr]
    refine ⟨by simp, iff_of_true rfl hlacks, ?_, ⟨?_, ?_⟩⟩
    · intro _ _ _ _ h
      cases h
    · rintro ⟨_, _, _, _, h⟩
      cases h
    · rintro ⟨e, hchosen, -⟩
      exact absurd hchosen.compatible (hlacks e hchosen.registered)
  · have hunique : ∀ e', Chosen registry req.abstractSyntax ihint e' → e' = e :=
      fun e' h => h.unique hchosen
    cases hgiven : givenType req.mgrType with
    | none =>
      have hmanager : e.manager req.mgrType = e.defaultMepv := by rw [RgyEntry.manager, hgiven]
      have hr : ifLookup registry req ihint = answerDefault req.wantsMepv ihint' e := by
        rw [ifLookup, hchoose, hgiven]
        rfl
      rcases answerDefault_cases req.wantsMepv ihint' e with ⟨hfail, hwants, hnone⟩ | ⟨mepv, hok, hm⟩
      · refine lookupOk_failed (hr.trans hfail) hchosen ?_
        rintro ⟨e', he', hserved⟩
        rw [hunique e' he'] at hserved
        rcases hserved with hsome | ⟨-, hwants'⟩ | ⟨hlast, -⟩
        · rw [hmanager, hnone] at hsome
          cases hsome
        · rw [hwants] at hwants'
          cases hwants'
        · exact hlast.1 hgiven
      · refine lookupOk_found (hr.trans hok) ⟨hchosen.registered, hchosen.compatible, rfl, rfl,
          fun hwants => ?_⟩ ⟨e, hchosen, ?_⟩
        · obtain ⟨hsome, heq⟩ := hm hwants
          exact ⟨hsome, Or.inl (by rw [hmanager]; exact heq)⟩
        · cases hwants : req.wantsMepv with
          | false => exact Or.inr (Or.inl ⟨hgiven, rfl⟩)
          | true =>
            obtain ⟨hsome, heq⟩ := hm hwants
            exact Or.inl (by rw [hmanager, ← heq]; exact hsome)
    | some type =>
      have hgiven' : givenType req.mgrType ≠ none := by rw [hgiven]; simp
      cases hfind : e.typeInfoList.find? fun info => uuidEqual info.type type = some true with
      | some info =>
        have hmanager : e.manager req.mgrType = some info.mepv := by
          rw [RgyEntry.manager, hgiven]
          simp only [hfind, Option.map_some]
        have hr : ifLookup registry req ihint = .found ihint' e.ifSpec e.ifSpec.serverEpv
            (if req.wantsMepv then some info.mepv else none) := by
          rw [ifLookup_of_type hchoose hgiven, hfind]
          rfl
        refine lookupOk_found hr ⟨hchosen.registered, hchosen.compatible, rfl, rfl, fun hwants => ?_⟩
          ⟨e, hchosen, Or.inl (by rw [hmanager]; rfl)⟩
        rw [if_pos hwants, hmanager]
        exact ⟨rfl, Or.inl rfl⟩
      | none =>
        have hmanager : e.manager req.mgrType = none := by
          rw [RgyEntry.manager, hgiven]
          simp only [hfind, Option.map_none]
        by_cases hmgmt : req.abstractSyntax.id = mgmtId
        · -- the management interface is looked up again without a type
          have hinvalid : HintOk req.abstractSyntax invalidIhint := Or.inl rfl
          rcases chooseEntry_spec registry hinvalid with
            ⟨-, hlacks⟩ | ⟨ihint₂, e₂, hchoose₂, hchosen₂⟩
          · exact absurd hchosen.compatible (hlacks e hchosen.registered)
          have hfirst := hchosen₂.of_invalid
          have hr : ifLookup registry req ihint = answerDefault req.wantsMepv ihint₂ e₂ := by
            rw [ifLookup_of_type hchoose hgiven, hfind]
            show merge (if uuidEqual mgmtId req.abstractSyntax.id = some true then _ else _) = _
            rw [hmgmt, uuidEqual_eq, decide_eq_true rfl, if_pos rfl, hchoose₂]
            rfl
          rcases answerDefault_cases req.wantsMepv ihint₂ e₂ with
            ⟨hfail, hwants, hnone⟩ | ⟨mepv, hok, hm⟩
          · refine lookupOk_failed (hr.trans hfail) hchosen ?_
            rintro ⟨e', he', hserved⟩
            rw [hunique e' he'] at hserved
            rcases hserved with hsome | ⟨hnil, -⟩ | ⟨-, e₃, hfirst₃, hdefault⟩
            · rw [hmanager] at hsome
              cases hsome
            · exact hgiven' hnil
            · rw [hfirst₃.unique hfirst] at hdefault
              have hsome := hdefault hwants
              rw [hnone] at hsome
              cases hsome
          · refine lookupOk_found (hr.trans hok) ⟨hchosen₂.registered, hchosen₂.compatible, rfl, rfl,
              fun hwants => ⟨(hm hwants).1, Or.inr ⟨hgiven', hmgmt, (hm hwants).2⟩⟩⟩
              ⟨e, hchosen, Or.inr (Or.inr ⟨⟨hgiven', hmgmt, hmanager⟩, e₂, hfirst, fun hwants => ?_⟩)⟩
            obtain ⟨hsome, heq⟩ := hm hwants
            exact heq ▸ hsome
        · have hr : ifLookup registry req ihint = .failed .unknownMgrType := by
            rw [ifLookup_of_type hchoose hgiven, hfind]
            show merge (if uuidEqual mgmtId req.abstractSyntax.id = some true then _ else _) = _
            rw [if_neg (by rw [uuidEqual_eq]; simpa using Ne.symm hmgmt)]
            rfl
          refine lookupOk_failed hr hchosen ?_
          rintro ⟨e', he', hserved⟩
          rw [hunique e' he'] at hserved
          rcases hserved with hsome | ⟨hnil, -⟩ | ⟨hlast, -⟩
          · rw [hmanager] at hsome
            cases hsome
          · exact hgiven' hnil
          · exact hmgmt hlast.2.1

/-- The interfaces without their managers. -/
def Registry.interfaces (registry : Registry) : IfRegistry where
  chain i := (registry.chain i).map fun e => e.ifSpec.rep
  hashed i ifRep h := by
    obtain ⟨e, he, rfl⟩ := List.mem_map.mp h
    exact registry.hashed i e he

theorem searchList_interfaces (a : PresSyntaxId) (n : ℕ) (entries : List RgyEntry) :
    (searchList a n entries).map (fun found => (found.1, found.2.ifSpec.rep)) =
      ifSearch a n (entries.map fun e => e.ifSpec.rep) := by
  induction entries generalizing n with
  | nil => rfl
  | cons e entries ih =>
    rw [searchList, List.map_cons, ifSearch, isCompatible]
    by_cases hcompat : ifIsCompatible a e.ifSpec.rep = true
    · rw [if_pos hcompat, if_pos hcompat]
      rfl
    · rw [if_neg hcompat, if_neg hcompat]
      exact ih (n + 1)

def LookupResult.interface : LookupResult → Option (BitVec 16 × IfRep)
  | .found ihint ifSpec _ _ => some (ihint, ifSpec.rep)
  | _ => none

/-- The lookup of the negotiation is the one without a hint that wants no manager. -/
theorem ifLookup_interfaces (registry : Registry) (a : PresSyntaxId) :
    (ifLookup registry ⟨a, none, false⟩ invalidIhint).interface =
      (Cn.ifLookup registry.interfaces a).map fun found => (BitVec.ofNat 16 found.1, found.2) := by
  obtain ⟨i, place, -, hindex, hhinted, hchoose⟩ :=
    chooseEntry_eq registry (Or.inl rfl : HintOk a invalidIhint)
  have hsearch := searchList_interfaces a 1 (registry.chain i)
  have hplace : listEntry registry a i place = searchList a 1 (registry.chain i) := by
    cases place with
    | none => simp [listEntry]
    | some n =>
      cases hget : (registry.chain i)[n - 1]? with
      | none => simp [listEntry, hget]
      | some x => exact absurd rfl ((hhinted x).mpr ⟨n, rfl, hget⟩).1
  rw [hplace] at hchoose
  rw [ifLookup, Cn.ifLookup, hindex, hchoose]
  cases hfound : searchList a 1 (registry.chain i) with
  | none =>
    rw [hfound] at hsearch
    show none = Option.map _ ((ifSearch a 1 ((registry.chain i).map fun e => e.ifSpec.rep)).bind _)
    rw [← hsearch]
    rfl
  | some found =>
    rw [hfound] at hsearch
    show some (makeHint i found.1, found.2.ifSpec.rep) =
      Option.map _ ((ifSearch a 1 ((registry.chain i).map fun e => e.ifSpec.rep)).bind _)
    rw [← hsearch]
    rfl

/-! ### Registries of two interfaces and of the management interface -/

def testIf (minor : ℕ) : IfSpec where
  rep := ⟨⟨1, 2, 3, 4, 5, 6⟩, BitVec.ofNat 32 (1 + minor * 65536), []⟩
  serverEpv := 10 + minor
  managerEpv := none

/-- Two minor versions of an interface, with managers of different types. -/
def testOps : List RegistryOp :=
  [.register (testIf 0) none (some 100) false,
    .register (testIf 1) (some ⟨7, 7, 7, 7, 7, 7⟩) (some 101) false]

def testRequest (mgrType : Option UuidT) : Request := ⟨⟨(testIf 0).rep.id, 1⟩, mgrType, true⟩

/-- A result by what is registered alone: it is a success just when a compatible interface has
the manager, and the interface is unknown only if none is compatible. -/
structure ByManagers (registry : Registry) (req : Request) (r : LookupResult) : Prop where
  inTable : r ≠ .outOfTable
  succeeds : (∃ ihint' ifSpec sepv mepv, r = .found ihint' ifSpec sepv mepv) ↔
    ∃ e, registry.Registered e ∧ CompatibleWith req.abstractSyntax e ∧
      (e.manager req.mgrType).isSome
  unknownIf : r = .failed .unknownIf →
    ∀ e, registry.Registered e → ¬ CompatibleWith req.abstractSyntax e

def mgmtOps : List RegistryOp := [.register ⟨⟨mgmtId, 1, []⟩, 1, some 2⟩ none none true]

end Com
