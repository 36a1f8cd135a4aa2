/-
Inquiries of the endpoint map, element by element (comep.c).

The elements come from the mapper in pages, with a handle for the next one.  An inquiry context
keeps the page and the place in it; an element may be skipped, because the caller wants a binding and the
protocol sequence is not supported, and may fail.

* `deliver` — the next element of what is left of the pages, or that there is none;
* `advance_spec`, `lookup_spec`, `nextLoop_spec` — the place, the page and the loop, as they are to
  be;
* `inquiry_delivers` — runs in which no page is empty and no element fails.
-/
import FreeDce.Lib.Runs

namespace Com

namespace EpInq

inductive Status
  | noMoreElements
  | protseqNotSupported
  | eptNotRegistered
  | other (code : ℕ)
deriving DecidableEq

/-- `ept_entry_t`. -/
structure Entry (T : Type) where
  tower : T
  object : ℕ
  annotation : String
deriving DecidableEq

/-- What `ept_lookup` returns: a page, or an error; and the handle, which may be null. -/
inductive Page (T : Type)
  | ok (entries : List (Entry T)) (handle : Option ℕ)
  | error (status : Status) (handle : Option ℕ)

/-- `rpc_tower_to_binding` and `tower_to_if_id`. -/
structure Decoders (T B I : Type) where
  towerToBinding : T → Except Status B
  towerToIfId : T → Except Status I

/-- Which of the outputs the caller wants, besides the interface. -/
structure Request where
  binding : Bool
  object : Bool
  annotation : Bool
deriving DecidableEq

inductive Answer (B I : Type)
  | elt (ifId : I) (binding : Option B) (object : Option ℕ)
      ( annotation : Option String)
  | status (st : Status)
deriving DecidableEq

/-- `mgmt_ep_inq_rep_t`, and the pages that the mapper will answer with.  Then what has happened:
the towers received and freed, the bindings made and handed over, the indices of entries read with
the number of entries then, and the answers. -/
structure Inq (T B I : Type) where
  done : Bool
  numEnts : ℕ
  nextEnt : ℕ
  entries : List (Entry T)
  entryHandle : Option ℕ
  pages : List (Page T)
  received : List T
  freed : List T
  made : List B
  handed : List B
  reads : List (ℕ × ℕ)
  answers : List (Answer B I)

variable {T B I : Type}

/-- `rpc_mgmt_ep_elt_inq_begin`. -/
def Inq.start (pages : List (Page T)) : Inq T B I where
  done := false
  numEnts := 0
  nextEnt := 0
  entries := []
  entryHandle := none
  pages := pages
  received := []
  freed := []
  made := []
  handed := []
  reads := []
  answers := []

/-! ### The next element -/

/-- The call to `ept_lookup`, and its status.  A mapper that has no more pages does not answer. -/
def Inq.lookup (s : Inq T B I) : Inq T B I × Option Status :=
  match s.pages with
  | [] => (s, some (.other 0))
  | .error st h :: pages => ({ s with pages := pages, entryHandle := h }, some st)
  | .ok es h :: pages =>
    ({ s with
      pages := pages
      entries := es ++ s.entries.drop es.length
      numEnts := es.length
      nextEnt := 0
      entryHandle := h
      received := s.received ++ es.map Entry.tower }, none)

/-- The entries of the page. -/
def Inq.page (s : Inq T B I) : List (Entry T) := s.entries.take s.numEnts

/-- The place behind the current entry; at the end of the page its towers are freed. -/
def Inq.advance (s : Inq T B I) : Inq T B I :=
  if s.numEnts ≤ s.nextEnt + 1 then
    { s with
      freed := s.freed ++ s.page.map Entry.tower
      numEnts := 0
      nextEnt := 0
      done := s.done || s.entryHandle.isNone }
  else { s with nextEnt := s.nextEnt + 1 }

/-- The element at the place.  Without an answer it is skipped, and `none` is an entry that was
never written. -/
def Inq.element (D : Decoders T B I) (q : Request) (s : Inq T B I) :
    Option (Inq T B I × Option (Answer B I)) := do
  let e ← s.entries[s.nextEnt]?
  let s := { s with reads := (s.nextEnt, s.numEnts) :: s.reads }
  match if q.binding then (D.towerToBinding e.tower).map some else .ok none with
  | .error .protseqNotSupported => some (s.advance, none)
  | .error st => some (s, some (.status st))
  | .ok b =>
    let s := { s with made := b.toList ++ s.made }
    match D.towerToIfId e.tower with
    | .error st => some (s, some (.status st))
    | .ok ifId =>
      let s := { s with handed := b.toList ++ s.handed }
      some (s.advance, some (.elt ifId b (if q.object then some e.object else none)
        (if q.annotation then some e.annotation else none)))

/-- One turn of the loop. -/
def Inq.turn (D : Decoders T B I) (q : Request) (s : Inq T B I) :
    Option (Inq T B I × Option (Answer B I)) :=
  if s.done then some (s, some (.status .noMoreElements))
  else if s.numEnts = 0 then
    match s.lookup with
    | (s, some st) =>
      some (s, some (.status (if st = .eptNotRegistered then .noMoreElements else st)))
    | (s, none) => s.element D q
  else s.element D q

/-- The loop, with so many turns at most. -/
def nextLoop (D : Decoders T B I) (q : Request) :
    ℕ → Inq T B I → Option (Inq T B I × Option (Answer B I))
  | 0, s => some (s, none)
  | n + 1, s =>
    match s.turn D q with
    | none => none
    | some (s, some a) => some (s, some a)
    | some (s, none) => nextLoop D q n s

def Page.size : Page T → ℕ
  | .ok es _ => es.length
  | .error _ _ => 1

/-- More turns than there are entries and pages. -/
def Inq.turns (s : Inq T B I) : ℕ := s.numEnts + (s.pages.map Page.size).sum + 2

/-- `rpc_mgmt_ep_elt_inq_next`. -/
def rpcMgmtEpEltInqNext (D : Decoders T B I) (s : Inq T B I) (q : Request) :
    Option (Inq T B I) := do
  let (s, a) ← nextLoop D q s.turns s
  some { s with answers := s.answers ++ a.toList }

/-- The handle that `rpc_mgmt_ep_elt_inq_done` gives back to the mapper, and the towers freed when
it has freed those of the page. -/
def rpcMgmtEpEltInqDone (s : Inq T B I) : Option ℕ × List T :=
  (s.entryHandle, s.freed ++ s.page.map Entry.tower)

/-! ### What is left of the pages -/

inductive Token (T : Type)
  | entry (e : Entry T)
  | failure (st : Status)
  | emptyPage
  | silence

/-- The pages one behind the other, until one has no handle. -/
def tokensOf : List (Page T) → List (Token T)
  | [] => [.silence]
  | .error st _ :: pages => .failure st :: tokensOf pages
  | .ok [] _ :: _ => [.emptyPage]
  | .ok (e :: es) h :: pages =>
    (e :: es).map .entry ++ if h.isNone then [] else tokensOf pages

/-- What an inquiry has not come to. -/
def Inq.tokens (s : Inq T B I) : List (Token T) :=
  if s.done then []
  else if s.numEnts = 0 then tokensOf s.pages
  else (s.page.drop s.nextEnt).map .entry ++ if s.entryHandle.isNone then [] else tokensOf s.pages

/-- The entry is to be skipped. -/
def skips (D : Decoders T B I) (q : Request) (e : Entry T) : Bool :=
  q.binding && match D.towerToBinding e.tower with
    | .error .protseqNotSupported => true
    | _ => false

/-- The outputs for an entry, if it has them. -/
def outputs (D : Decoders T B I) (q : Request) (e : Entry T) : Option (Answer B I) :=
  match if q.binding then (D.towerToBinding e.tower).map some else .ok none, D.towerToIfId e.tower with
  | .ok b, .ok ifId => some (.elt ifId b (if q.object then some e.object else none)
      (if q.annotation then some e.annotation else none))
  | _, _ => none

/-- The next answer, and what is left then.  An entry is delivered or skipped; with nothing left, or
when the mapper says that nothing is registered, there are no more elements. -/
def deliver (D : Decoders T B I) (q : Request) : List (Token T) → Answer B I × List (Token T)
  | [] => (.status .noMoreElements, [])
  | .failure st :: rest =>
    (.status (if st = .eptNotRegistered then .noMoreElements else st), rest)
  | .emptyPage :: rest => (.status .noMoreElements, rest)
  | .silence :: rest => (.status (.other 0), .silence :: rest)
  | .entry e :: rest =>
    if skips D q e then deliver D q rest
    else ((outputs D q e).getD (.status .noMoreElements), rest)

/-- The answers to a list of requests. -/
def deliverAll (D : Decoders T B I) : List Request → List (Token T) → List (Answer B I)
  | [], _ => []
  | q :: qs, ts => (deliver D q ts).1 :: deliverAll D qs (deliver D q ts).2

/-- Up to the entry that is delivered no page is empty and no entry fails. -/
def smooth (D : Decoders T B I) (q : Request) : List (Token T) → Bool
  | [] => true
  | .failure _ :: _ => true
  | .emptyPage :: _ => false
  | .silence :: _ => true
  | .entry e :: rest =>
    if skips D q e then smooth D q rest else (outputs D q e).isSome

/-! ### The inquiry -/

/-- The place is in the page, and what was received, made and read is accounted for. -/
structure Sound (s : Inq T B I) : Prop where
  empty : s.done = true → s.numEnts = 0
  place : 0 < s.numEnts → s.nextEnt < s.numEnts
  room : s.numEnts ≤ s.entries.length
  towers : s.received = s.freed ++ s.page.map Entry.tower
  bindings : s.made = s.handed
  reads : ∀ r ∈ s.reads, r.1 < r.2

variable {s : Inq T B I} {D : Decoders T B I} {q : Request}

theorem Sound.start (pages : List (Page T)) : Sound (Inq.start pages : Inq T B I) :=
  ⟨fun _ => rfl, fun h => absurd h (lt_irrefl 0), le_rfl, rfl, rfl, fun r hr => by cases hr⟩

/-- Behind an entry: the page goes on, or its towers are freed. -/
theorem advance_spec (h : Sound s) (hnum : 0 < s.numEnts) (hdone : s.done = false) :
    Sound s.advance ∧ ∃ e, s.entries[s.nextEnt]? = some e ∧
      s.tokens = .entry e :: s.advance.tokens := by
  have hlt := h.place hnum
  have hlen : s.page.length = s.numEnts := by
    rw [Inq.page, List.length_take]
    exact min_eq_left h.room
  have hget : s.page[s.nextEnt]? = s.entries[s.nextEnt]? := List.getElem?_take_of_lt hlt
  have hlt' : s.nextEnt < s.page.length := by omega
  have htokens : s.tokens = .entry s.page[s.nextEnt] ::
      ((s.page.drop (s.nextEnt + 1)).map .entry ++
        if s.entryHandle.isNone then [] else tokensOf s.pages) := by
    rw [Inq.tokens, hdone, if_neg Bool.false_ne_true, if_neg hnum.ne',
      List.drop_eq_getElem_cons hlt', List.map_cons, List.cons_append]
  refine ⟨?_, s.page[s.nextEnt], ?_, ?_⟩
  · rw [Inq.advance]
    split
    · refine ⟨fun _ => rfl, fun h0 => absurd h0 (lt_irrefl 0), Nat.zero_le _, ?_, h.bindings,
        h.reads⟩
      have hnil : s.entries.take 0 = [] := List.take_zero
      simp only [Inq.page, hnil, List.map_nil, List.append_nil]
      exact h.towers
    · exact ⟨h.empty, fun _ => by simp only; omega, h.room, h.towers, h.bindings, h.reads⟩
  · rw [← hget]
    exact List.getElem?_eq_getElem hlt'
  · rw [htokens, Inq.advance]
    refine congrArg _ ?_
    by_cases hend : s.numEnts ≤ s.nextEnt + 1
    · -- the last entry of the page
      have hdrop : s.page.drop (s.nextEnt + 1) = [] := List.drop_eq_nil_of_le (by omega)
      rw [if_pos hend, hdrop, List.map_nil, List.nil_append]
      simp only [Inq.tokens, hdone, Bool.false_or, if_true]
    · rw [if_neg hend]
      simp only [Inq.tokens, hdone, Inq.page, Bool.false_eq_true, if_false, hnum.ne']

/-- A page that is not empty takes the place of the one before. -/
theorem lookup_spec (h : Sound s) (hnum : s.numEnts = 0) (hdone : s.done = false) :
    (∃ st s', s.lookup = (s', some st) ∧ Sound s' ∧
      ((s.tokens = .failure st :: s'.tokens ∧ s.pages ≠ []) ∨
        (s.tokens = [.silence] ∧ s' = s ∧ st = .other 0))) ∨
    s.tokens = [.emptyPage] ∨
    ∃ s', s.lookup = (s', none) ∧ Sound s' ∧ 0 < s'.numEnts ∧ s'.done = false ∧
      s'.tokens = s.tokens ∧ s'.answers = s.answers ∧
      s'.numEnts + (s'.pages.map Page.size).sum = (s.pages.map Page.size).sum := by
  have hpage : s.page = [] := by rw [Inq.page, hnum, List.take_zero]
  have htokens : s.tokens = tokensOf s.pages := by
    rw [Inq.tokens, hdone, if_neg Bool.false_ne_true, if_pos hnum]
  rw [Inq.lookup, htokens]
  cases hpages : s.pages with
  | nil => exact .inl ⟨_, s, rfl, h, .inr ⟨rfl, rfl, rfl⟩⟩
  | cons p pages =>
    cases p with
    | error st hd =>
      refine .inl ⟨st, _, rfl, ⟨h.empty, h.place, h.room, h.towers, h.bindings, h.reads⟩,
        .inl ⟨?_, List.cons_ne_nil _ _⟩⟩
      simp only [Inq.tokens, hdone, hnum, Bool.false_eq_true, if_false, if_true, tokensOf]
    | ok es hd =>
      cases es with
      | nil => exact .inr (.inl rfl)
      | cons e es =>
        -- the rest of the old page stays behind the new entries, and is not in the page
        have htake :
            ((e :: es) ++ s.entries.drop (e :: es).length).take (e :: es).length = e :: es :=
          List.take_left' rfl
        refine .inr (.inr ⟨_, rfl, ⟨?_, fun _ => Nat.succ_pos _, ?_, ?_, h.bindings, h.reads⟩,
          Nat.succ_pos _, hdone, ?_, rfl, ?_⟩)
        · intro hd'
          rw [hdone] at hd'
          cases hd'
        · rw [List.length_append]
          exact Nat.le_add_right _ _
        · have htowers := h.towers
          rw [hpage, List.map_nil, List.append_nil] at htowers
          simp only [Inq.page, htake, htowers]
        · have hne : (e :: es).length ≠ 0 := Nat.succ_ne_zero _
          simp only [Inq.tokens, hdone, Inq.page, htake, Bool.false_eq_true, if_false, hne,
            List.drop_zero, tokensOf]
        · simp only [List.map_cons, List.sum_cons, Page.size]

/-- The element at the place is skipped or delivered. -/
theorem element_spec (h : Sound s) (hnum : 0 < s.numEnts) (hdone : s.done = false)
    (hsmooth : smooth D q s.tokens = true) :
    ∃ e rest s', s.tokens = .entry e :: rest ∧ Sound s' ∧ s'.tokens = rest ∧
      s'.answers = s.answers ∧
      ((skips D q e = true ∧ s.element D q = some (s', none)) ∨
        (skips D q e = false ∧ ∃ a, outputs D q e = some a ∧
          s.element D q = some (s', some a))) := by
  -- what is read and made does not move the place
  have hread : ∀ made handed : List B, made = handed →
      Sound { s with reads := (s.nextEnt, s.numEnts) :: s.reads, made := made, handed := handed } := by
    intro made handed hsame
    refine ⟨h.empty, h.place, h.room, h.towers, hsame, ?_⟩
    intro r hr
    rcases List.mem_cons.mp hr with rfl | hr
    · exact h.place hnum
    · exact h.reads r hr
  obtain ⟨-, e, hget, htokens⟩ := advance_spec h hnum hdone
  rw [htokens, smooth] at hsmooth
  cases hskip : skips D q e with
  | true =>
    obtain ⟨hsound, e', hget', htokens'⟩ := advance_spec (hread _ _ h.bindings) hnum hdone
    refine ⟨e, _, _, htokens, hsound, ?_, ?_, .inl ⟨hskip, ?_⟩⟩
    · have hsame := htokens.symm.trans htokens'
      exact (List.cons.inj hsame).2.symm
    · rw [Inq.advance]
      split
      · rfl
      · rfl
    · rw [skips, Bool.and_eq_true] at hskip
      rw [Inq.element, hget]
      simp only [Option.bind_eq_bind, Option.bind_some, hskip.1, if_true]
      have hunsupported := hskip.2
      cases hb : D.towerToBinding e.tower with
      | ok b =>
        rw [hb] at hunsupported
        cases hunsupported
      | error st =>
        rw [hb] at hunsupported
        cases st with
        | protseqNotSupported => rfl
        | _ => cases hunsupported
  | false =>
    rw [hskip, if_neg Bool.false_ne_true] at hsmooth
    obtain ⟨a, ha⟩ := Option.isSome_iff_exists.mp hsmooth
    have hout := ha
    rw [outputs] at hout
    cases hb : (if q.binding then (D.towerToBinding e.tower).map some else .ok none) with
    | error st =>
      rw [hb] at hout
      cases hout
    | ok b =>
      cases hi : D.towerToIfId e.tower with
      | error st =>
        rw [hb, hi] at hout
        cases hout
      | ok ifId =>
        rw [hb, hi] at hout
        have hsame : b.toList ++ s.made = b.toList ++ s.handed := by rw [h.bindings]
        obtain ⟨hsound, e', hget', htokens'⟩ := advance_spec (hread _ _ hsame) hnum hdone
        refine ⟨e, _, _, htokens, hsound, ?_, ?_, .inr ⟨hskip, a, ha, ?_⟩⟩
        · have hsame := htokens.symm.trans htokens'
          exact (List.cons.inj hsame).2.symm
        · rw [Inq.advance]
          split
          · rfl
          · rfl
        · rw [Inq.element, hget]
          simp only [Option.bind_eq_bind, Option.bind_some, hb, hi]
          rw [← Option.some.inj hout]

theorem length_tokensOf_le (pages : List (Page T)) :
    (tokensOf pages).length ≤ (pages.map Page.size).sum + 1 := by
  induction pages with
  | nil => exact le_rfl
  | cons p pages ih =>
    rw [List.map_cons, List.sum_cons]
    cases p with
    | error st h =>
      rw [tokensOf, List.length_cons, Page.size]
      omega
    | ok es h =>
      cases es with
      | nil =>
        rw [tokensOf, List.length_singleton]
        omega
      | cons e es =>
        rw [tokensOf, List.length_append, List.length_map, Page.size]
        split
        · rw [List.length_nil]
          omega
        · omega

theorem length_tokens_lt (s : Inq T B I) : s.tokens.length < s.turns := by
  have hpages := length_tokensOf_le s.pages
  rw [Inq.turns, Inq.tokens]
  split_ifs
  · rw [List.length_nil]
    omega
  · omega
  all_goals
    have hpage : s.page.length ≤ s.numEnts := by
      rw [Inq.page, List.length_take]
      exact min_le_left _ _
    rw [List.length_append, List.length_map, List.length_drop]
  · rw [List.length_nil]
    omega
  · omega

/-- The loop answers with the element that is to be delivered, and leaves what is left. -/
theorem nextLoop_spec : ∀ (n : ℕ) (s : Inq T B I), Sound s → smooth D q s.tokens = true →
    s.tokens.length < n → ∃ s', nextLoop D q n s = some (s', some (deliver D q s.tokens).1) ∧
      Sound s' ∧ s'.tokens = (deliver D q s.tokens).2 ∧ s'.answers = s.answers := by
  intro n
  induction n with
  | zero => exact fun s _ _ h => absurd h (Nat.not_lt_zero _)
  | succ n ih =>
    intro s h hsmooth hn
    -- an element that is skipped leaves the loop one token less
    have helement : ∀ s₁ : Inq T B I, Sound s₁ → 0 < s₁.numEnts → s₁.done = false →
        s₁.tokens = s.tokens → s₁.answers = s.answers → s.turn D q = s₁.element D q →
        ∃ s', nextLoop D q (n + 1) s = some (s', some (deliver D q s.tokens).1) ∧
          Sound s' ∧ s'.tokens = (deliver D q s.tokens).2 ∧ s'.answers = s.answers := by
      intro s₁ h₁ hnum hdone htokens hanswers hturn
      rw [← htokens] at hsmooth hn ⊢
      obtain ⟨e, rest, s', hentry, hs', hrest, hsame, hcase⟩ := element_spec h₁ hnum hdone hsmooth
      rw [nextLoop, hturn, hentry, deliver]
      rcases hcase with ⟨hskip, hrun⟩ | ⟨hskip, a, ha, hrun⟩
      · rw [hrun, if_pos hskip, ← hrest, ← hanswers, ← hsame]
        rw [hentry, smooth, if_pos hskip, ← hrest] at hsmooth
        rw [hentry, List.length_cons, ← hrest] at hn
        exact ih s' hs' hsmooth (by omega)
      · rw [hrun, hskip, if_neg Bool.false_ne_true, ha]
        exact ⟨s', rfl, hs', hrest, hsame.trans hanswers⟩
    by_cases hdone : s.done = true
    · have htokens : s.tokens = [] := by rw [Inq.tokens, if_pos hdone]
      refine ⟨s, ?_, h, ?_, rfl⟩
      · rw [nextLoop, Inq.turn, if_pos hdone, htokens, deliver]
      · rw [htokens, deliver]
    · rw [Bool.not_eq_true] at hdone
      by_cases hnum : s.numEnts = 0
      · have hturn : s.turn D q = match s.lookup with
            | (s, some st) =>
              some (s, some (.status (if st = .eptNotRegistered then .noMoreElements else st)))
            | (s, none) => s.element D q := by
          rw [Inq.turn, hdone, if_neg Bool.false_ne_true, if_pos hnum]
        rcases lookup_spec h hnum hdone with
          ⟨st, s', hlookup, hs', hkind⟩ | hempty | ⟨s', hlookup, hs', hnum', hdone', htok, hans, -⟩
        · rw [hlookup] at hturn
          simp only at hturn
          have hans : s'.answers = s.answers := by
            have hfst : s.lookup.1 = s' := by rw [hlookup]
            rw [← hfst, Inq.lookup]
            split
            · rfl
            · rfl
            · rfl
          rw [nextLoop, hturn]
          rcases hkind with ⟨htokens, -⟩ | ⟨htokens, rfl, rfl⟩
          · exact ⟨s', by rw [htokens, deliver], hs', by rw [htokens, deliver], hans⟩
          · exact ⟨s', by rw [htokens, deliver]; simp, hs', by rw [htokens, deliver], hans⟩
        · rw [hempty, smooth] at hsmooth
          cases hsmooth
        · rw [hlookup] at hturn
          exact helement s' hs' hnum' hdone' htok hans hturn
      · refine helement s h (Nat.pos_of_ne_zero hnum) hdone rfl rfl ?_
        rw [Inq.turn, hdone, if_neg Bool.false_ne_true, if_neg hnum]

/-- One request. -/
theorem next_spec (h : Sound s) (hsmooth : smooth D q s.tokens = true) :
    ∃ s', rpcMgmtEpEltInqNext D s q = some s' ∧ Sound s' ∧
      s'.tokens = (deliver D q s.tokens).2 ∧
      s'.answers = s.answers ++ [(deliver D q s.tokens).1] := by
  obtain ⟨s', hloop, hs', htokens, hanswers⟩ :=
    nextLoop_spec s.turns s h hsmooth (length_tokens_lt s)
  rw [rpcMgmtEpEltInqNext, hloop]
  refine ⟨_, rfl, ⟨hs'.empty, hs'.place, hs'.room, hs'.towers, hs'.bindings, hs'.reads⟩,
    htokens, ?_⟩
  simp only [hanswers, Option.toList_some]

/-- A request meets no empty page and no entry that fails. -/
def Smooth (D : Decoders T B I) (s : Inq T B I) (q : Request) : Prop := smooth D q s.tokens = true

instance (s : Inq T B I) (q : Request) : Decidable (Smooth D s q) :=
  inferInstanceAs (Decidable (_ = true))

theorem run_spec : ∀ (qs : List Request) (s : Inq T B I), Sound s →
    Runs.Along (rpcMgmtEpEltInqNext D) (Smooth D) s qs →
    ∃ t, Runs.exec (rpcMgmtEpEltInqNext D) s qs = some t ∧ Sound t ∧
      t.answers = s.answers ++ deliverAll D qs s.tokens := by
  intro qs
  induction qs with
  | nil => exact fun s h _ => ⟨s, rfl, h, (List.append_nil _).symm⟩
  | cons q qs ih =>
    intro s h hrun
    obtain ⟨s', hnext, hs', htokens, hanswers⟩ := next_spec h hrun.1
    obtain ⟨t, ht, hsound, hall⟩ := ih s' hs' (hrun.2 s' hnext)
    refine ⟨t, Runs.exec_cons_eq_some.mpr ⟨s', hnext, ht⟩, hsound, ?_⟩
    rw [hall, hanswers, htokens, List.append_assoc]
    rfl

/-- **Each element is delivered once**, in runs that meet no empty page and no entry that fails: the
answers are the elements of the pages one by one; only entries of the current page are read; each
binding made is handed over; and the towers received are freed, those of the page at the end. -/
theorem inquiry_delivers (D : Decoders T B I) (pages : List (Page T)) (qs : List Request)
    (h : Runs.Along (rpcMgmtEpEltInqNext D) (Smooth D) (.start pages) qs) :
    ∃ t, Runs.exec (rpcMgmtEpEltInqNext D) (.start pages) qs = some t ∧
      t.answers = deliverAll D qs (tokensOf pages) ∧
      (∀ r ∈ t.reads, r.1 < r.2) ∧ t.made = t.handed ∧
      t.received = t.freed ++ t.page.map Entry.tower ∧
      rpcMgmtEpEltInqDone t = (t.entryHandle, t.received) := by
  obtain ⟨t, ht, hsound, hanswers⟩ := run_spec qs _ (Sound.start pages) h
  refine ⟨t, ht, hanswers, hsound.reads, hsound.bindings, hsound.towers, ?_⟩
  rw [rpcMgmtEpEltInqDone, hsound.towers]

/-! ### Elements that fail -/

/-- Towers that are numbers: those of 5 are of a protocol sequence that is not supported, those of 7
are malformed. -/
def numbered : Decoders ℕ ℕ ℕ where
  towerToBinding t := if t = 5 then .error .protseqNotSupported else .ok t
  towerToIfId t := if t = 7 then .error (.other 1) else .ok t

def entryOf (t : ℕ) : Entry ℕ := ⟨t, 0, "ep"⟩

theorem inquiry_delivers_three :
    let pages := [.ok [entryOf 5, entryOf 1] (some 3), .ok [entryOf 2] none]
    let qs : List Request := [⟨true, true, false⟩, ⟨false, false, true⟩, ⟨true, false, false⟩]
    ∃ t, Runs.exec (rpcMgmtEpEltInqNext numbered) (.start pages) qs = some t ∧
      t.answers = deliverAll numbered qs (tokensOf pages) ∧
      (∀ r ∈ t.reads, r.1 < r.2) ∧ t.made = t.handed ∧
      t.received = t.freed ++ t.page.map Entry.tower ∧
      rpcMgmtEpEltInqDone t = (t.entryHandle, t.received) :=
  inquiry_delivers numbered [.ok [entryOf 5, entryOf 1] (some 3), .ok [entryOf 2] none]
    [⟨true, true, false⟩, ⟨false, false, true⟩, ⟨true, false, false⟩] (by decide)

/-- An entry that fails is come to again by each request, the one behind it never; the bindings made
for it are lost.  And an empty page is read. -/
theorem failing_entry_stays :
    (∃ t, Runs.exec (rpcMgmtEpEltInqNext numbered) (.start [.ok [entryOf 7, entryOf 1] none])
        (List.replicate 3 ⟨true, false, false⟩) = some t ∧
      t.answers = List.replicate 3 (.status (.other 1)) ∧
      t.made = [7, 7, 7] ∧ t.handed = []) ∧
    Runs.exec (rpcMgmtEpEltInqNext numbered) (.start [.ok [] (some 3), .ok [entryOf 1] none])
      [⟨false, false, false⟩] = none :=
  ⟨⟨_, rfl, rfl, rfl, rfl⟩, rfl⟩

end EpInq
end Com
