/-
What a client gets from the endpoint map.

A client that calls with the handle it was given until there is none gets the pages of
one search (`clientPages_eq_drain`): of one chain for a lookup or the management
interface, of the object chain followed by the interface chain for a map.  Together they
are the matching entries in list order (`complete_iff`); but the management interface
compares endpoints with those on the current page only, so an endpoint can come again on
a later page.
-/
import FreeDce.Rpcd.EndpointMap

namespace EndpointMap

open Paging

variable {α : Type*} {hash : Uuid → ℕ} {h : ListsMgmt α hash} {key : MapKey} {f : Filter}
  {maxEnts n : ℕ} {handle : Option (Context α)} {lp entries : List (Entry α)}
  {supported : ℕ → Bool}

/-! ### Calls and pages -/

/-- A call that returns one page of a search, and the context of the rest of it. -/
def CallsPage {γ : Type*} (untag : γ → Entry α) (valid : Option (Context α) → Prop)
    (pos : Option (Context α) → List γ) (r : Option (Reply α)) : List γ × List γ → Prop
  | (page, []) => ∃ st, r = some ⟨page.map untag, st, none⟩
  | (page, e :: rest) => ∃ st ctx, r = some ⟨page.map untag, st, some ctx⟩ ∧
      valid (some ctx) ∧ pos (some ctx) = e :: rest

/-- The pages that a client gets are those of the search. -/
theorem clientPages_eq_drain {γ : Type*} {untag : γ → Entry α} {accept : List γ → γ → Bool}
    {valid : Option (Context α) → Prop} {pos : Option (Context α) → List γ}
    {call : Option (Context α) → Option (Reply α)}
    (hcall : ∀ handle, valid handle →
      CallsPage untag valid pos (call handle) (fillPage accept maxEnts [] (pos handle)))
    (n : ℕ) {handle : Option (Context α)} (hvalid : valid handle) :
    clientPages call n handle =
      (drain accept maxEnts n (pos handle)).map (List.map (List.map untag)) := by
  induction n generalizing handle with
  | zero => rfl
  | succ n ih =>
    have hpage := hcall handle hvalid
    rw [clientPages, drain]
    obtain ⟨page, rest, hfill⟩ : ∃ page rest,
        fillPage accept maxEnts [] (pos handle) = (page, rest) := ⟨_, _, rfl⟩
    rw [hfill] at hpage ⊢
    cases rest with
    | nil =>
      obtain ⟨st, hreply⟩ := hpage
      rw [hreply]
      rfl
    | cons e rest =>
      obtain ⟨st, ctx, hreply, hvalid', hpos⟩ := hpage
      rw [hreply]
      dsimp only [Option.bind_eq_bind, Option.bind_some]
      rw [ih hvalid', hpos, Option.map_map, Option.map_map]
      rfl

/-- No entry has too many readers for another context. -/
def RefsOk (lp : List (Entry α)) : Prop := ∀ e ∈ lp, e.readNrefs + 1 < dbMaxReadNrefs

/-- The end of a search hands out a context if something is left. -/
theorem reply_eq (handle : Option (Context α)) (listType : ListType) (pass : ℕ)
    (found : List (Entry α) × List (Entry α)) (hrefs : RefsOk found.2) :
    ∃ st, reply handle listType pass found = some ⟨found.1, st,
      if found.2 = [] then none else some ⟨listType, found.2, pass⟩⟩ := by
  obtain ⟨entries, lp⟩ := found
  cases lp with
  | nil => exact ⟨_, rfl⟩
  | cons e lp =>
    have href := hrefs e List.mem_cons_self
    have hsave : dbSaveContext handle listType (e :: lp) pass = some (some ⟨listType, e :: lp, pass⟩) := by
      rw [dbSaveContext]
      exact if_neg (by omega)
    refine ⟨if entries = [] then .notRegistered else .ok, ?_⟩
    rw [reply, hsave]
    rfl

theorem RefsOk.suffix (hrefs : RefsOk lp) {lp' : List (Entry α)} (hs : lp' <:+ lp) : RefsOk lp' :=
  fun e he => hrefs e (hs.subset he)

theorem mem_of_mem_dbListFirst {listType : ListType} {id : Uuid} {e : Entry α}
    (he : e ∈ dbListFirst h listType id) : e ∈ h.entryList := by
  cases listType with
  | entry => exact he
  | object =>
    rw [dbListFirst, h.objectTable_eq] at he
    exact List.mem_of_mem_filter he
  | interface =>
    rw [dbListFirst, h.interfaceTable_eq] at he
    exact List.mem_of_mem_filter he

/-! ### Searches of one chain -/

/-- A handle of a search of one chain. -/
def ChainValid (listType : ListType) (handle : Option (Context α)) : Prop :=
  ∀ ctx ∈ handle, ctx.listType = listType ∧ ctx.pass = 1 ∧ RefsOk ctx.lp

/-- Where the search goes on. -/
def chainPos (first : List (Entry α)) (handle : Option (Context α)) : List (Entry α) :=
  handle.elim first Context.lp

theorem chainValid_none (listType : ListType) : ChainValid listType (none : Option (Context α)) :=
  fun _ hctx => absurd hctx (Option.not_mem_none _)

/-- A search of one chain returns a page of it. -/
theorem callsPage_reply {accept : List (Entry α) → Entry α → Bool} (handle : Option (Context α))
    (listType : ListType) (first : List (Entry α)) (hrefs : RefsOk lp) :
    CallsPage id (ChainValid listType) (chainPos first)
      (reply handle listType 1 (fillPage accept maxEnts [] lp)) (fillPage accept maxEnts [] lp) := by
  have hsuffix : (fillPage accept maxEnts [] lp).2 <:+ lp := fillPage_suffix [] lp
  have hrest := hrefs.suffix hsuffix
  obtain ⟨st, hreply⟩ := reply_eq handle listType 1 _ hrest
  rw [hreply]
  obtain ⟨page, rest, hfill⟩ : ∃ page rest,
      fillPage accept maxEnts [] lp = (page, rest) := ⟨_, _, rfl⟩
  rw [hfill] at hrest ⊢
  cases rest with
  | nil => exact ⟨st, by rw [List.map_id, if_pos rfl]⟩
  | cons e rest =>
    refine ⟨st, ⟨listType, e :: rest, 1⟩, ?_, fun ctx hctx => ?_, rfl⟩
    · rw [List.map_id, if_neg (List.cons_ne_nil e rest)]
    · rw [Option.mem_some_iff] at hctx
      subst hctx
      exact ⟨rfl, rfl, hrest⟩

/-- A client of a search of one chain gets the pages of that chain. -/
theorem clientPages_chain {accept : List (Entry α) → Entry α → Bool} (listType : ListType)
    {first : List (Entry α)} {call : Option (Context α) → Option (Reply α)}
    (hrefs : RefsOk first)
    (hcall : ∀ handle, ChainValid listType handle → call handle =
      reply handle listType 1 (fillPage accept maxEnts [] (chainPos first handle))) (n : ℕ) :
    clientPages call n none = drain accept maxEnts n first := by
  have hpages : clientPages call n none =
      (drain accept maxEnts n (chainPos first none)).map (List.map (List.map id)) := by
    refine clientPages_eq_drain (fun handle hvalid => ?_) n (chainValid_none listType)
    rw [hcall handle hvalid]
    refine callsPage_reply handle listType first ?_
    cases handle with
    | none => exact hrefs
    | some ctx => exact (hvalid ctx rfl).2.2
  rw [hpages, List.map_id_fun, List.map_id_fun, Option.map_id_fun]
  rfl

theorem clientPages_lookup (hrefs : RefsOk (dbListFirst h f.listType f.listId)) (n : ℕ) :
    clientPages (epdbLookup h f maxEnts) n none =
      drain (fun _ => f.matches) maxEnts n (dbListFirst h f.listType f.listId) := by
  refine clientPages_chain f.listType hrefs (fun handle hvalid => ?_) n
  cases handle with
  | none => rfl
  | some ctx =>
    obtain ⟨htype, hpass, -⟩ := hvalid ctx rfl
    rw [epdbLookup, if_neg (not_not.mpr htype), htype, hpass]
    rfl

theorem clientPages_mapMgmt [DecidableEq α] (hobject : uuidIsNil key.object = false)
    (hrefs : RefsOk (dbListFirst h .object key.object)) (n : ℕ) :
    clientPages (fun handle => mapMgmt h key handle maxEnts) n none =
      drain (freshKey (fun e : Entry α => e.addr.sa) key.mapsMgmt) maxEnts n
        (dbListFirst h .object key.object) := by
  refine clientPages_chain .object hrefs (fun handle hvalid => ?_) n
  cases handle with
  | none => rw [mapMgmt, hobject, if_neg Bool.false_ne_true]; rfl
  | some ctx =>
    obtain ⟨htype, hpass, -⟩ := hvalid ctx rfl
    rw [mapMgmt, hobject, if_neg Bool.false_ne_true, htype, hpass]
    rfl

/-! ### The two passes of a map -/

/-- An entry of the object chain, to be searched in pass 1. -/
def tag1 (e : Entry α) : Entry α × Bool := (e, false)

/-- An entry of the interface chain, to be searched in pass 2. -/
def tag2 (e : Entry α) : Entry α × Bool := (e, true)

/-- The matches of both passes. -/
def MapKey.mapsTagged (key : MapKey) (x : Entry α × Bool) : Bool :=
  if x.2 then key.maps 0 x.1 else key.maps key.object x.1

/-- Where the search goes on: through the object chain to the interface chain. -/
def mapPos (h : ListsMgmt α hash) (key : MapKey) :
    Option (Context α) → List (Entry α × Bool)
  | none =>
    if uuidIsNil key.object then (dbListFirst h .interface key.interface.uuid).map tag2
    else (dbListFirst h .object key.object).map tag1 ++
      (dbListFirst h .interface key.interface.uuid).map tag2
  | some ctx =>
    if ctx.pass = 1 then
      ctx.lp.map tag1 ++ (dbListFirst h .interface key.interface.uuid).map tag2
    else ctx.lp.map tag2

def MapValid (handle : Option (Context α)) : Prop := ∀ ctx ∈ handle, RefsOk ctx.lp

theorem callsPage_pass2 (handle : Option (Context α)) (page : List (Entry α × Bool))
    (hrefs : RefsOk lp) :
    CallsPage Prod.fst MapValid (mapPos h key)
      (mapPass2 key maxEnts handle (page.map Prod.fst) lp)
      (fillPage (fun _ => key.mapsTagged) maxEnts page (lp.map tag2)) := by
  obtain ⟨page', hfill, hpage'⟩ : ∃ page',
      fillPage (fun _ => key.mapsTagged) maxEnts page (lp.map tag2) =
          (page', (fillPage (fun _ => key.maps 0) maxEnts (page.map Prod.fst) lp).2.map tag2) ∧
        page'.map Prod.fst = (fillPage (fun _ => key.maps 0) maxEnts (page.map Prod.fst) lp).1 :=
    fillPage_map (fun _ => rfl) (fun _ => rfl) page lp
  have hsuffix : (fillPage (fun _ => key.maps 0) maxEnts (page.map Prod.fst) lp).2 <:+ lp :=
    fillPage_suffix _ lp
  obtain ⟨st, hreply⟩ := reply_eq handle .interface 2 _ (hrefs.suffix hsuffix)
  have hrest := hrefs.suffix hsuffix
  rw [mapPass2, mapMatch, hreply, hfill, ← hpage']
  cases hlp : (fillPage (fun _ => key.maps 0) maxEnts (page.map Prod.fst) lp).2 with
  | nil => exact ⟨st, by rw [if_pos rfl]⟩
  | cons e rest =>
    rw [hlp] at hrest
    refine ⟨st, ⟨.interface, e :: rest, 2⟩, by rw [if_neg (List.cons_ne_nil e rest)], ?_, ?_⟩
    · intro ctx hctx
      rw [Option.mem_some_iff] at hctx
      subst hctx
      exact hrest
    · rw [mapPos]
      exact if_neg (by norm_num)

theorem callsPage_pass1 (handle : Option (Context α)) (hrefs : RefsOk lp)
    (hrefs' : RefsOk (dbListFirst h .interface key.interface.uuid)) :
    CallsPage Prod.fst MapValid (mapPos h key) (mapPass1 h key maxEnts handle lp)
      (fillPage (fun _ => key.mapsTagged) maxEnts [] (lp.map tag1 ++
        (dbListFirst h .interface key.interface.uuid).map tag2)) := by
  obtain ⟨page', hfill, hpage'⟩ : ∃ page',
      fillPage (fun _ => key.mapsTagged) maxEnts [] (lp.map tag1) =
          (page', (fillPage (fun _ => key.maps key.object) maxEnts [] lp).2.map tag1) ∧
        page'.map Prod.fst = (fillPage (fun _ => key.maps key.object) maxEnts [] lp).1 :=
    fillPage_map (fun _ => rfl) (fun _ => rfl) [] lp
  obtain ⟨entries, rest, hpage⟩ : ∃ entries rest,
      fillPage (fun _ => key.maps key.object) maxEnts [] lp = (entries, rest) := ⟨_, _, rfl⟩
  have hsuffix : (fillPage (fun _ => key.maps key.object) maxEnts [] lp).2 <:+ lp :=
    fillPage_suffix [] lp
  have hrest := hrefs.suffix hsuffix
  have hempty : ∀ (_ : List (Entry α)) (e : Entry α), key.maps key.object e → key.maps key.object e :=
    fun _ _ he => he
  obtain ⟨-, hfull, -⟩ := fillPage_spec hempty (Nat.zero_le _) hpage
  rw [hpage] at hfill hpage' hrest
  rw [mapPass1, mapMatch, hpage, fillPage_append _ _ (Nat.zero_le _), hfill]
  cases rest with
  | nil =>
    dsimp only at hpage'
    rw [← hpage']
    dsimp only
    rw [if_neg (fun hboth => hboth.2 rfl)]
    exact callsPage_pass2 handle page' hrefs'
  | cons e rest =>
    obtain ⟨st, hreply⟩ := reply_eq handle .object 1 (entries, e :: rest) hrest
    dsimp only at hpage' ⊢
    rw [if_pos ⟨(hfull (List.cons_ne_nil e rest)).ge, List.cons_ne_nil e rest⟩, hreply]
    refine ⟨st, ⟨.object, e :: rest, 1⟩, ?_, ?_, ?_⟩
    · rw [if_neg (List.cons_ne_nil e rest), hpage']
    · intro ctx hctx
      rw [Option.mem_some_iff] at hctx
      subst hctx
      exact hrest
    · rw [mapPos]
      exact if_pos rfl

theorem clientPages_map (hrefs : RefsOk h.entryList) (n : ℕ) :
    clientPages (fun handle => map h key handle maxEnts) n none =
      (drain (fun _ => key.mapsTagged) maxEnts n (mapPos h key none)).map
        (List.map (List.map Prod.fst)) := by
  have hfirst : ∀ listType id, RefsOk (dbListFirst h listType id) := fun listType id e he =>
    hrefs e (mem_of_mem_dbListFirst he)
  have hcall : ∀ handle, MapValid handle → CallsPage Prod.fst MapValid (mapPos h key)
      (map h key handle maxEnts)
      (fillPage (fun _ => key.mapsTagged) maxEnts [] (mapPos h key handle)) := by
    intro handle hvalid
    cases handle with
    | none =>
      rw [map, mapPos]
      split_ifs with hnil
      · exact callsPage_pass2 none [] (hfirst _ _)
      · exact callsPage_pass1 none (hfirst _ _) (hfirst _ _)
    | some ctx =>
      have hctx := hvalid ctx rfl
      rw [map, mapPos]
      split_ifs with hpass
      · exact callsPage_pass1 _ hctx (hfirst _ _)
      · exact callsPage_pass2 _ [] hctx
  exact clientPages_eq_drain hcall n fun ctx hctx => absurd hctx (Option.not_mem_none _)

/-! ### What is to be returned -/

/-- The chain of an id holds the entries that the search looks for in it. -/
theorem filter_objectChain {id : Uuid} {q : Entry α → Bool} (hq : ∀ e, q e → id = e.object) :
    (dbListFirst h .object id).filter q = h.entryList.filter q := by
  rw [dbListFirst, h.objectTable_eq, List.filter_filter]
  refine List.filter_congr fun e _ => ?_
  by_cases he : q e
  · simp [he, hq e he]
  · simp [he]

theorem filter_interfaceChain {id : Uuid} {q : Entry α → Bool}
    (hq : ∀ e, q e → id = e.interface.uuid) :
    (dbListFirst h .interface id).filter q = h.entryList.filter q := by
  rw [dbListFirst, h.interfaceTable_eq, List.filter_filter]
  refine List.filter_congr fun e _ => ?_
  by_cases he : q e
  · simp [he, hq e he]
  · simp [he]

/-- A search of the endpoint map. -/
inductive Request
  | map (key : MapKey)
  | lookup (f : Filter)

/-- The call that a client makes. -/
def Request.call [DecidableEq α] (req : Request) (h : ListsMgmt α hash) (supported : ℕ → Bool)
    (maxEnts : ℕ) : Option (Context α) → Option (Reply α) :=
  match req with
  | .map key => epdbMap h supported key maxEnts
  | .lookup f => epdbLookup h f maxEnts

/-- The key passes the checks of `epdb_map`. -/
def Request.Accepted (supported : ℕ → Bool) : Request → Prop
  | .map key => epdbChkMapEntry supported key = true ∧
      (key.interface.uuid = mgmtIfId → uuidIsNil key.object = false)
  | .lookup _ => True

/-- A map for the management interface. -/
def Request.IsMgmt : Request → Prop
  | .map key => key.interface.uuid = mgmtIfId
  | .lookup _ => False

/-- The matching entries: of a map with an object those of the object come first, and the
management interface does not matter for a match. -/
def Request.matching (h : ListsMgmt α hash) : Request → List (Entry α)
  | .map key =>
    if key.interface.uuid = mgmtIfId then h.entryList.filter key.mapsMgmt
    else (if uuidIsNil key.object then [] else h.entryList.filter (key.maps key.object)) ++
      h.entryList.filter (key.maps 0)
  | .lookup f => h.entryList.filter f.matches

/-- What a client must get: all matching entries in their order, or for the management
interface one for each endpoint. -/
def Request.Returns (h : ListsMgmt α hash) (req : Request) (entries : List (Entry α)) : Prop :=
  (¬ req.IsMgmt → entries = req.matching h) ∧
    (req.IsMgmt → entries.Sublist (req.matching h) ∧ (entries.map fun e => e.addr.sa).Nodup ∧
      ∀ a, a ∈ entries.map (fun e => e.addr.sa) ↔ a ∈ (req.matching h).map fun e => e.addr.sa)

theorem maps_object {object : Uuid} {e : Entry α} (hobject : uuidIsNil object = false)
    (he : key.maps object e) : object = e.object := by
  simp only [MapKey.maps, Bool.and_eq_true, Bool.or_eq_true, decide_eq_true_eq, hobject] at he
  simpa using he.2.1.1.1.1

theorem maps_interface {object : Uuid} {e : Entry α} (he : key.maps object e) :
    key.interface.uuid = e.interface.uuid := by
  simp only [MapKey.maps, Bool.and_eq_true, decide_eq_true_eq] at he
  exact he.2.1.1.1.2

/-- The list of a lookup holds all its matches. -/
theorem filter_lookupList :
    (dbListFirst h f.listType f.listId).filter f.matches = h.entryList.filter f.matches := by
  unfold Filter.listType Filter.listId
  cases hty : f.inquiryType with
  | allElts => rfl
  | matchByIf =>
    refine filter_interfaceChain fun e he => ?_
    simp only [Filter.matches, hty, Bool.and_eq_true, decide_eq_true_eq] at he
    exact he.2.1
  | matchByObj =>
    refine filter_objectChain fun e he => ?_
    simp only [Filter.matches, hty, Bool.and_eq_true, decide_eq_true_eq] at he
    exact he.2
  | matchByBoth =>
    refine filter_interfaceChain fun e he => ?_
    simp only [Filter.matches, hty, Bool.and_eq_true, decide_eq_true_eq] at he
    exact he.2.1.1

theorem filter_tagged {tag : Entry α → Entry α × Bool} (htag : ∀ e, (tag e).1 = e)
    (l : List (Entry α)) : ((l.map tag).filter key.mapsTagged).map Prod.fst =
      l.filter fun e => key.mapsTagged (tag e) := by
  induction l with
  | nil => rfl
  | cons e l ih =>
    rw [List.map_cons, List.filter_cons, List.filter_cons]
    split_ifs
    · rw [List.map_cons, htag, ih]
    · exact ih

/-- A scan of the two passes of a map. -/
theorem filter_mapPos (hmgmt : key.interface.uuid ≠ mgmtIfId) :
    ((mapPos h key none).filter key.mapsTagged).map Prod.fst = (Request.map key).matching h := by
  have hpass2 : ((((dbListFirst h .interface key.interface.uuid).map tag2).filter
      key.mapsTagged).map Prod.fst) = h.entryList.filter (key.maps 0) :=
    (filter_tagged (fun _ => rfl) _).trans (filter_interfaceChain fun _ he => maps_interface he)
  rw [mapPos, Request.matching, if_neg hmgmt]
  split_ifs with hnil
  · rw [hpass2, List.nil_append]
  · have hpass1 : ((((dbListFirst h .object key.object).map tag1).filter
        key.mapsTagged).map Prod.fst) = h.entryList.filter (key.maps key.object) :=
      (filter_tagged (fun _ => rfl) _).trans
        (filter_objectChain fun _ he => maps_object (Bool.eq_false_iff.mpr hnil) he)
    rw [List.filter_append, List.map_append, hpass1, hpass2]

/-! ### Main results -/

variable [DecidableEq α]

/-- The client's calls come to an end, with the handle gone after the last page, and return
what they must. -/
def Complete (h : ListsMgmt α hash) (supported : ℕ → Bool) (req : Request) (maxEnts : ℕ) : Prop :=
  ∃ n pages, clientPages (req.call h supported maxEnts) n none = some pages ∧
    Paged maxEnts pages ∧ req.Returns h pages.flatten

theorem call_map (hpos : 0 < maxEnts) (hacc : (Request.map key).Accepted supported)
    (handle : Option (Context α)) : (Request.map key).call h supported maxEnts handle =
      if key.interface.uuid = mgmtIfId then mapMgmt h key handle maxEnts
      else map h key handle maxEnts := by
  rw [Request.call, epdbMap, hacc.1, Bool.not_true, if_neg Bool.false_ne_true, if_neg hpos.ne']

/-- A search without a condition on the page returns its matches. -/
theorem paged_filter {γ : Type*} {q : γ → Bool} {l : List γ} (hpos : 0 < maxEnts) :
    ∃ n pages, drain (fun _ => q) maxEnts n l = some pages ∧ Paged maxEnts pages ∧
      pages.flatten = l.filter q := by
  have hempty : ∀ (_ : List γ) (e : γ), q e → q e := fun _ _ he => he
  obtain ⟨pages, hdrain⟩ := drain_isSome (l := l) hempty hpos (Nat.lt_succ_self _)
  obtain ⟨hflat, -, hpaged⟩ := drain_eq hempty hpos hdrain
  exact ⟨_, pages, hdrain, hpaged, hflat.trans (scan_filter q)⟩

theorem complete_lookup (hrefs : RefsOk h.entryList) (hpos : 0 < maxEnts) :
    Complete h supported (.lookup f) maxEnts := by
  have hlist : RefsOk (dbListFirst h f.listType f.listId) := fun e he =>
    hrefs e (mem_of_mem_dbListFirst he)
  obtain ⟨n, pages, hdrain, hpaged, hflat⟩ :=
    paged_filter (q := f.matches) (l := dbListFirst h f.listType f.listId) hpos
  refine ⟨n, pages, (clientPages_lookup hlist n).trans hdrain, hpaged, fun _ => ?_,
    fun hmgmt => hmgmt.elim⟩
  rw [hflat, filter_lookupList]
  rfl

theorem complete_map (hrefs : RefsOk h.entryList) (hpos : 0 < maxEnts)
    (hacc : (Request.map key).Accepted supported) (hmgmt : key.interface.uuid ≠ mgmtIfId) :
    Complete h supported (.map key) maxEnts := by
  obtain ⟨n, pages, hdrain, hpaged, hflat⟩ :=
    paged_filter (q := key.mapsTagged) (l := mapPos h key none) hpos
  have hcall : (Request.map key).call h supported maxEnts = fun handle => map h key handle maxEnts :=
    funext fun handle => (call_map hpos hacc handle).trans (if_neg hmgmt)
  refine ⟨n, pages.map (List.map Prod.fst), ?_, hpaged.map Prod.fst, fun _ => ?_,
    fun h => absurd h hmgmt⟩
  · rw [hcall, clientPages_map hrefs, hdrain, Option.map_some]
  · rw [← List.map_flatten, hflat, filter_mapPos hmgmt]

/-- For the management interface the pages are complete if and only if every endpoint that
comes again is in the same page as the newest one. -/
theorem complete_mgmt_iff (hrefs : RefsOk h.entryList) (hpos : 0 < maxEnts)
    (hacc : (Request.map key).Accepted supported) (hmgmt : key.interface.uuid = mgmtIfId) :
    Complete h supported (.map key) maxEnts ↔
      SameBlock maxEnts [] (((Request.map key).matching h).map fun e => e.addr.sa) := by
  have hobject := hacc.2 hmgmt
  have hcall : (Request.map key).call h supported maxEnts =
      fun handle => mapMgmt h key handle maxEnts :=
    funext fun handle => (call_map hpos hacc handle).trans (if_pos hmgmt)
  have hlist : RefsOk (dbListFirst h .object key.object) := fun e he =>
    hrefs e (mem_of_mem_dbListFirst he)
  have hmatching : (Request.map key).matching h = h.entryList.filter key.mapsMgmt := if_pos hmgmt
  have hchain : (dbListFirst h .object key.object).filter key.mapsMgmt
      = h.entryList.filter key.mapsMgmt := by
    refine filter_objectChain fun e he => ?_
    simp only [MapKey.mapsMgmt, Bool.and_eq_true, decide_eq_true_eq] at he
    exact he.2.1
  have hempty : ∀ page e, freshKey (fun e : Entry α => e.addr.sa) key.mapsMgmt page e →
      freshKey (fun e : Entry α => e.addr.sa) key.mapsMgmt [] e := by
    intro page e he
    simp only [freshKey, Bool.and_eq_true] at he ⊢
    exact ⟨he.1, by simp⟩
  have hnodup : ((scan (freshKey (fun e : Entry α => e.addr.sa) key.mapsMgmt) maxEnts []
      (dbListFirst h .object key.object)).map fun e => e.addr.sa).Nodup ↔
      SameBlock maxEnts [] (((dbListFirst h .object key.object).filter key.mapsMgmt).map
        fun e => e.addr.sa) := scan_nodup_iff hpos
  rw [hmatching, ← hchain, ← hnodup]
  constructor
  · rintro ⟨n, pages, hpages, -, -, hreturns⟩
    rw [hcall, clientPages_mapMgmt hobject hlist] at hpages
    obtain ⟨hflat, -, -⟩ := drain_eq hempty hpos hpages
    rw [← hflat]
    exact (hreturns hmgmt).2.1
  · intro hunique
    obtain ⟨pages, hdrain⟩ := drain_isSome (l := dbListFirst h .object key.object) hempty hpos
      (Nat.lt_succ_self _)
    obtain ⟨hflat, -, hpaged⟩ := drain_eq hempty hpos hdrain
    refine ⟨(dbListFirst h .object key.object).length + 1, pages, ?_, hpaged,
      fun hno => absurd hmgmt hno, fun _ => ?_⟩
    · rw [hcall, clientPages_mapMgmt hobject hlist, hdrain]
    · rw [hflat, hmatching, ← hchain]
      refine ⟨scan_sublist [] _, hunique, fun a => ⟨fun ha => ?_, fun ha => ?_⟩⟩
      · exact ((scan_sublist [] _).map _).subset ha
      · exact mem_scan_of_mem [] _ ha

/-- An entry of object 1, with a protocol sequence and data representation 1. -/
def sampleEntry (interface : Uuid) (endpoint : ℕ) : Entry ℕ where
  readNrefs := 0
  deleteFlag := false
  object := 1
  objectNil := false
  interface := { uuid := interface, versMajor := 1, versMinor := 0 }
  dataRepId := 1
  dataRepVersMajor := 2
  dataRepVersMinor := 0
  rpcProtocol := 1
  rpcProtocolVersMajor := 5
  addr := { rpcProtseqId := 1, sa := endpoint }
  objectNil_eq := by decide

/-- A server with two interfaces at endpoint 135, and another one at 136 in between. -/
def sampleLists : ListsMgmt ℕ BitVec.toNat :=
  [sampleEntry 7 135, sampleEntry 7 136, sampleEntry 8 135].foldl dbListsAdd (dbInitLists ℕ _)

def mgmtKey : MapKey where
  object := 1
  interface := { uuid := mgmtIfId, versMajor := 1, versMinor := 0 }
  dataRep := { id := 1, version := 2 }
  rpcProtocol := 1
  rpcProtocolVersMajor := 5
  protseq := 1

theorem sample_refsOk : RefsOk sampleLists.entryList := by
  intro e he
  simp only [sampleLists, dbListsAdd, dbInitLists, List.foldl_cons, List.foldl_nil,
    List.nil_append, List.cons_append, List.mem_cons, List.not_mem_nil, or_false] at he
  rcases he with rfl | rfl | rfl <;> decide

theorem sample_accepted : (Request.map mgmtKey).Accepted fun p => p = 1 :=
  ⟨by decide, fun _ => by decide⟩

end EndpointMap
