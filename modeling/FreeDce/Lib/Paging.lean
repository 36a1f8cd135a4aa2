/-
Paged searches of a list.

A search returns its matches in pages of at most `maxEnts`, and resumes where it
stopped: at the first match that did not fit.  Whether an element is a match may depend
on the page that is being filled.  `scan` is the search in one go, `drain` the search
page by page, and

* `drain_eq` — the pages put together are what the scan returns;
* `scan_filter` — if matches do not depend on the page, that is a filter of the list;
* `scan_nodup_iff` — if a page takes one element for each key, keys are returned once
  exactly when no repetition of a key is separated from its first occurrence by the end
  of a page (`SameBlock`).
-/
import Mathlib

namespace Paging

variable {α β : Type*} {accept : List α → α → Bool} {maxEnts n : ℕ}
  {page page' l rest : List α} {e : α}

/-! ### Pages -/

/-- Fill up a page from a list; the second component begins with the first match that does
not fit. -/
def fillPage (accept : List α → α → Bool) (maxEnts : ℕ) : List α → List α → List α × List α
  | page, [] => (page, [])
  | page, e :: l =>
    if accept page e then
      if maxEnts ≤ page.length then (page, e :: l) else fillPage accept maxEnts (page ++ [e]) l
    else fillPage accept maxEnts page l

/-- What is returned from here on, over all pages. -/
def scan (accept : List α → α → Bool) (maxEnts : ℕ) : List α → List α → List α
  | _, [] => []
  | page, e :: l =>
    if accept page e then
      e :: scan accept maxEnts (if maxEnts ≤ page.length then [e] else page ++ [e]) l
    else scan accept maxEnts page l

/-- All pages. -/
def drain (accept : List α → α → Bool) (maxEnts : ℕ) : ℕ → List α → Option (List (List α))
  | 0, _ => none
  | n + 1, l =>
    match fillPage accept maxEnts [] l with
    | (page, []) => some [page]
    | (page, e :: rest) => (drain accept maxEnts n (e :: rest)).map (page :: ·)

theorem fillPage_append (l₁ l₂ : List α) (hmax : page.length ≤ maxEnts) :
    fillPage accept maxEnts page (l₁ ++ l₂) =
      match fillPage accept maxEnts page l₁ with
      | (page', []) => fillPage accept maxEnts page' l₂
      | (page', e :: rest) => (page', e :: (rest ++ l₂)) := by
  induction l₁ generalizing page with
  | nil => rfl
  | cons e l₁ ih =>
    rw [List.cons_append, fillPage, fillPage]
    split_ifs with haccept hfull
    · rfl
    · exact ih (by rw [List.length_append, List.length_singleton]; omega)
    · exact ih hmax

/-- One page of a scan: the page is full if anything is left, and what is left begins with
a match. -/
theorem fillPage_spec (hempty : ∀ page e, accept page e → accept [] e)
    (hmax : page.length ≤ maxEnts) (h : fillPage accept maxEnts page l = (page', rest)) :
    page'.length ≤ maxEnts ∧ (rest ≠ [] → page'.length = maxEnts) ∧
      (∀ e, rest.head? = some e → accept [] e) ∧
      page'.length + rest.length ≤ page.length + l.length ∧
      page ++ scan accept maxEnts page l = page' ++ scan accept maxEnts [] rest := by
  induction l generalizing page with
  | nil =>
    cases h
    exact ⟨hmax, fun hne => absurd rfl hne, fun e he => by simp at he, le_rfl, rfl⟩
  | cons e l ih =>
    rw [fillPage] at h
    rw [scan]
    split_ifs at h ⊢ with haccept hfull
    · cases h
      have hlast : (if maxEnts ≤ ([] : List α).length then [e] else [] ++ [e]) = [e] := by
        split_ifs <;> rfl
      refine ⟨hmax, fun _ => le_antisymm hmax hfull, fun e' he' => ?_, le_rfl, ?_⟩
      · rw [List.head?_cons, Option.some_inj] at he'
        exact he' ▸ hempty _ e haccept
      · rw [scan, if_pos (hempty _ e haccept), hlast]
    · obtain ⟨hle, hfull', hhead, hlen, hscan⟩ :=
        ih (by rw [List.length_append, List.length_singleton]; omega) h
      refine ⟨hle, hfull', hhead, ?_, ?_⟩
      · rw [List.length_append, List.length_singleton] at hlen
        rw [List.length_cons]
        omega
      · rw [← hscan, List.append_assoc, List.singleton_append]
    · obtain ⟨hle, hfull', hhead, hlen, hscan⟩ := ih hmax h
      refine ⟨hle, hfull', hhead, ?_, hscan⟩
      rw [List.length_cons]
      omega

/-- The search resumes inside the list. -/
theorem fillPage_suffix (page l : List α) : (fillPage accept maxEnts page l).2 <:+ l := by
  induction l generalizing page with
  | nil => exact List.suffix_rfl
  | cons e l ih =>
    rw [fillPage]
    split_ifs
    · exact List.suffix_rfl
    · exact (ih _).trans (List.suffix_cons e l)
    · exact (ih _).trans (List.suffix_cons e l)

/-- A page of tagged elements. -/
theorem fillPage_map {γ : Type*} {q : α → Bool} {q' : γ → Bool} {tag : α → γ} {untag : γ → α}
    (htag : ∀ e, untag (tag e) = e) (hq : ∀ e, q' (tag e) = q e) (tagged : List γ) (l : List α) :
    ∃ tagged', fillPage (fun _ => q') maxEnts tagged (l.map tag) =
        (tagged', (fillPage (fun _ => q) maxEnts (tagged.map untag) l).2.map tag) ∧
      tagged'.map untag = (fillPage (fun _ => q) maxEnts (tagged.map untag) l).1 := by
  induction l generalizing tagged with
  | nil => exact ⟨tagged, rfl, rfl⟩
  | cons e l ih =>
    rw [List.map_cons, fillPage, fillPage, hq, List.length_map]
    split_ifs
    · exact ⟨tagged, rfl, rfl⟩
    · have hnext := ih (tagged ++ [tag e])
      rw [List.map_append, List.map_singleton, htag] at hnext
      exact hnext
    · exact ih tagged

/-- A scan begins with the element that it resumes at. -/
theorem head?_scan (he : accept [] e) : (scan accept maxEnts [] (e :: l)).head? = some e := by
  rw [scan, if_pos he]
  rfl

/-- Full pages, but for the last one, and no empty page behind others. -/
structure Paged (maxEnts : ℕ) (pages : List (List α)) : Prop where
  le : ∀ p ∈ pages, p.length ≤ maxEnts
  full : ∀ p ∈ pages.dropLast, p.length = maxEnts
  nonempty : [] ∈ pages → pages = [[]]

/-- Every page but the last takes an element, so the list is exhausted at last. -/
theorem drain_isSome (hempty : ∀ page e, accept page e → accept [] e) (hpos : 0 < maxEnts)
    (hn : l.length < n) : ∃ pages, drain accept maxEnts n l = some pages := by
  induction n generalizing l with
  | zero => exact absurd hn (Nat.not_lt_zero _)
  | succ n ih =>
    obtain ⟨page, rest, hfill⟩ : ∃ page rest, fillPage accept maxEnts [] l = (page, rest) :=
      ⟨_, _, rfl⟩
    obtain ⟨-, hfull, -, hlen, -⟩ := fillPage_spec hempty (Nat.zero_le _) hfill
    rw [drain, hfill]
    cases rest with
    | nil => exact ⟨[page], rfl⟩
    | cons e rest =>
      have hfull' := hfull (List.cons_ne_nil e rest)
      simp only [List.length_nil, List.length_cons] at hlen
      obtain ⟨pages, hdrain⟩ := ih (l := e :: rest) (by rw [List.length_cons]; omega)
      dsimp only
      exact ⟨page :: pages, by rw [hdrain, Option.map_some]⟩

/-- The pages put together are what the scan returns. -/
theorem drain_eq (hempty : ∀ page e, accept page e → accept [] e) (hpos : 0 < maxEnts)
    {pages : List (List α)} (h : drain accept maxEnts n l = some pages) :
    pages.flatten = scan accept maxEnts [] l ∧ pages ≠ [] ∧ Paged maxEnts pages := by
  induction n generalizing l pages with
  | zero => simp [drain] at h
  | succ n ih =>
    obtain ⟨page, rest, hfill⟩ : ∃ page rest, fillPage accept maxEnts [] l = (page, rest) :=
      ⟨_, _, rfl⟩
    obtain ⟨hle, hfull, hhead, hlen, hscan⟩ := fillPage_spec hempty (Nat.zero_le _) hfill
    rw [List.nil_append] at hscan
    rw [drain, hfill] at h
    cases rest with
    | nil =>
      cases h
      rw [scan, List.append_nil] at hscan
      refine ⟨by rw [List.flatten_singleton, hscan], by simp, fun p hp => ?_,
        fun p hp => by simp at hp, fun hp => ?_⟩
      · rw [List.mem_singleton] at hp
        exact hp ▸ hle
      · rw [List.mem_singleton] at hp
        rw [← hp]
    | cons e rest =>
      have hfull' := hfull (List.cons_ne_nil e rest)
      dsimp only at h
      obtain ⟨pages, hdrain, rfl⟩ := Option.map_eq_some_iff.mp h
      obtain ⟨hflat, hne, hpaged⟩ := ih hdrain
      refine ⟨by rw [List.flatten_cons, hflat, hscan], List.cons_ne_nil _ _, fun p hp => ?_,
        fun p hp => ?_, fun hp => ?_⟩
      · rcases List.mem_cons.mp hp with rfl | hmem
        · exact hle
        · exact hpaged.le p hmem
      · rw [List.dropLast_cons_of_ne_nil hne] at hp
        rcases List.mem_cons.mp hp with rfl | hmem
        · exact hfull'
        · exact hpaged.full p hmem
      · rcases List.mem_cons.mp hp with hnil | hmem
        · rw [← hnil] at hfull'
          exact absurd hfull' hpos.ne
        · -- the pages behind a full page return the element it stopped at
          have hout : (scan accept maxEnts [] (e :: rest)).head? = some e :=
            head?_scan (hhead e rfl)
          rw [← hflat, hpaged.nonempty hmem] at hout
          simp at hout

theorem Paged.map {pages : List (List α)} (hp : Paged maxEnts pages) (g : α → β) :
    Paged maxEnts (pages.map (List.map g)) := by
  refine ⟨fun p hmem => ?_, fun p hmem => ?_, fun hnil => ?_⟩
  · obtain ⟨p', hp', rfl⟩ := List.mem_map.mp hmem
    rw [List.length_map]
    exact hp.le p' hp'
  · rw [← List.map_dropLast] at hmem
    obtain ⟨p', hp', rfl⟩ := List.mem_map.mp hmem
    rw [List.length_map]
    exact hp.full p' hp'
  · obtain ⟨p', hp', hnil'⟩ := List.mem_map.mp hnil
    rw [List.map_eq_nil_iff] at hnil'
    rw [hp.nonempty (hnil' ▸ hp')]
    rfl

/-! ### Matches that do not depend on the page -/

theorem scan_filter (q : α → Bool) : scan (fun _ => q) maxEnts page l = l.filter q := by
  induction l generalizing page with
  | nil => rfl
  | cons e l ih => rw [scan, List.filter_cons, ih, ih]

/-! ### One element for each key -/

section Keys

variable [DecidableEq β] {key : α → β} {q : α → Bool} {seen : List α} {ds : List β} {b : β}

/-- A page takes an element if it has none of its key. -/
def freshKey (key : α → β) (q : α → Bool) (page : List α) (e : α) : Bool :=
  q e && decide (key e ∉ page.map key)

/-- The first element of each key. -/
def firsts (key : α → β) : List α → List α → List α
  | _, [] => []
  | seen, e :: l =>
    if key e ∈ seen.map key then firsts key seen l else e :: firsts key (seen ++ [e]) l

/-- Every key that is repeated lies in the same block of `maxEnts` keys as the newest one. -/
def SameBlock (maxEnts : ℕ) : List β → List β → Prop
  | _, [] => True
  | ds, b :: bs =>
    if b ∈ ds then ds.idxOf b / maxEnts = (ds.length - 1) / maxEnts ∧ SameBlock maxEnts ds bs
    else SameBlock maxEnts (ds ++ [b]) bs

instance SameBlock.decidable (maxEnts : ℕ) :
    ∀ ds bs : List β, Decidable (SameBlock maxEnts ds bs)
  | _, [] => isTrue trivial
  | ds, b :: bs =>
    have := SameBlock.decidable maxEnts ds bs
    have := SameBlock.decidable maxEnts (ds ++ [b]) bs
    inferInstanceAs (Decidable (if b ∈ ds then
      ds.idxOf b / maxEnts = (ds.length - 1) / maxEnts ∧ SameBlock maxEnts ds bs
      else SameBlock maxEnts (ds ++ [b]) bs))

theorem mem_drop_iff_idxOf (hnodup : ds.Nodup) (hmem : b ∈ ds) (m : ℕ) :
    b ∈ ds.drop m ↔ m ≤ ds.idxOf b := by
  have hlt := List.idxOf_lt_length_of_mem hmem
  constructor
  · intro hdrop
    obtain ⟨i, hi, hget⟩ := List.mem_iff_getElem.mp hdrop
    rw [List.length_drop] at hi
    rw [List.getElem_drop] at hget
    have hidx := hnodup.idxOf_getElem (m + i) (by omega)
    rw [hget] at hidx
    omega
  · intro hle
    refine List.mem_iff_getElem.mpr ⟨ds.idxOf b - m, by rw [List.length_drop]; omega, ?_⟩
    simp only [List.getElem_drop, Nat.add_sub_cancel' hle]
    exact List.getElem_idxOf hlt

/-- The last block of a list. -/
def lastBlock (maxEnts : ℕ) (seen : List α) : List α :=
  seen.drop ((seen.length - 1) / maxEnts * maxEnts)

/-- An element begins a new block if the last one is full. -/
theorem lastBlock_concat (hpos : 0 < maxEnts) :
    lastBlock maxEnts (seen ++ [e]) =
      if maxEnts ≤ (lastBlock maxEnts seen).length then [e] else lastBlock maxEnts seen ++ [e] := by
  have hmod := Nat.div_add_mod (seen.length - 1) maxEnts
  have hr := Nat.mod_lt (seen.length - 1) hpos
  rw [Nat.mul_comm] at hmod
  have hlen : (lastBlock maxEnts seen).length
      = seen.length - (seen.length - 1) / maxEnts * maxEnts := List.length_drop
  have hnext : (seen ++ [e]).length - 1 = seen.length := by
    rw [List.length_append, List.length_singleton, Nat.add_sub_cancel]
  rw [lastBlock, hnext, hlen]
  split_ifs with hfull
  · have hsplit : seen.length = ((seen.length - 1) / maxEnts + 1) * maxEnts := by
      rw [Nat.succ_mul]
      omega
    have hdiv : seen.length / maxEnts * maxEnts = seen.length := by
      refine Nat.div_mul_cancel ⟨(seen.length - 1) / maxEnts + 1, ?_⟩
      rw [Nat.mul_comm]
      exact hsplit
    rw [hdiv, List.drop_left]
  · have hdiv : seen.length / maxEnts = (seen.length - 1) / maxEnts := by
      refine Nat.div_eq_of_lt_le ?_ ?_
      · omega
      · rw [Nat.succ_mul]
        omega
    rw [hdiv, List.drop_append_of_le_length (by omega)]
    rfl

theorem mem_lastBlock_iff (hnodup : (seen.map key).Nodup) (hpos : 0 < maxEnts)
    (hmem : b ∈ seen.map key) :
    b ∈ (lastBlock maxEnts seen).map key ↔
      (seen.map key).idxOf b / maxEnts = ((seen.map key).length - 1) / maxEnts := by
  have hlt := List.idxOf_lt_length_of_mem hmem
  have hle : (seen.map key).idxOf b / maxEnts ≤ ((seen.map key).length - 1) / maxEnts :=
    Nat.div_le_div_right (by omega)
  rw [lastBlock, List.map_drop, mem_drop_iff_idxOf hnodup hmem, ← Nat.le_div_iff_mul_le hpos,
    ← List.length_map key]
  omega

/-- Keys are returned once if and only if their repetitions stay in the block. -/
theorem scan_nodup_iff_of_seen (hpos : 0 < maxEnts) (hnodup : (seen.map key).Nodup) :
    (((seen ++ scan (freshKey key q) maxEnts (lastBlock maxEnts seen) l).map key).Nodup ↔
        SameBlock maxEnts (seen.map key) ((l.filter q).map key)) ∧
      (SameBlock maxEnts (seen.map key) ((l.filter q).map key) →
        scan (freshKey key q) maxEnts (lastBlock maxEnts seen) l
          = firsts key seen (l.filter q)) := by
  induction l generalizing seen with
  | nil =>
    rw [scan, List.append_nil]
    exact ⟨iff_of_true hnodup trivial, fun _ => rfl⟩
  | cons e l ih =>
    by_cases hq : q e
    · rw [List.filter_cons_of_pos hq, List.map_cons, SameBlock, scan, firsts]
      by_cases hmem : key e ∈ seen.map key
      · have hblock := mem_lastBlock_iff hnodup hpos hmem
        rw [if_pos hmem, if_pos hmem]
        by_cases hpage : key e ∈ (lastBlock maxEnts seen).map key
        · rw [if_neg (by simp [freshKey, hpage])]
          obtain ⟨hiff, hfirsts⟩ := ih hnodup
          refine ⟨hiff.trans ⟨fun h => ⟨hblock.mp hpage, h⟩, fun h => h.2⟩, fun h => hfirsts h.2⟩
        · rw [if_pos (by simp [freshKey, hpage, hq])]
          refine ⟨iff_of_false ?_ fun h => hpage (hblock.mpr h.1),
            fun h => absurd (hblock.mpr h.1) hpage⟩
          intro htwice
          rw [List.map_append, List.map_cons, List.nodup_append] at htwice
          exact htwice.2.2 _ hmem _ List.mem_cons_self rfl
      · have hpage : key e ∉ (lastBlock maxEnts seen).map key := by
          rw [lastBlock, List.map_drop]
          exact fun h => hmem (List.mem_of_mem_drop h)
        rw [if_neg hmem, if_neg hmem, if_pos (by simp [freshKey, hpage, hq]),
          ← lastBlock_concat hpos]
        have hseen : ((seen ++ [e]).map key).Nodup := by
          rw [List.map_append, List.nodup_append]
          refine ⟨hnodup, List.nodup_singleton _, fun a ha b hb hab => ?_⟩
          rw [List.map_singleton, List.mem_singleton] at hb
          exact hmem (hb ▸ hab ▸ ha)
        obtain ⟨hiff, hfirsts⟩ := ih hseen
        have hkeys : (seen ++ [e]).map key = seen.map key ++ [key e] := by
          rw [List.map_append, List.map_singleton]
        rw [hkeys] at hiff hfirsts
        rw [List.append_assoc, List.singleton_append] at hiff
        exact ⟨hiff, fun h => by rw [hfirsts h]⟩
    · rw [List.filter_cons_of_neg hq, scan, if_neg (by simp [freshKey, hq])]
      exact ih hnodup

/-- A scan returns matches, in their order. -/
theorem scan_sublist (page l : List α) :
    (scan (freshKey key q) maxEnts page l).Sublist (l.filter q) := by
  induction l generalizing page with
  | nil => exact List.Sublist.refl _
  | cons e l ih =>
    by_cases hq : q e
    · rw [scan, List.filter_cons_of_pos hq]
      split_ifs
      · exact (ih _).cons_cons e
      · exact (ih _).cons_cons e
      · exact (ih _).cons e
    · rw [scan, if_neg (by simp [freshKey, hq]), List.filter_cons_of_neg hq]
      exact ih page

/-- Every key is on a page, the one being filled included. -/
theorem mem_scan_of_mem (page l : List α) (hb : b ∈ (l.filter q).map key) :
    b ∈ (page ++ scan (freshKey key q) maxEnts page l).map key := by
  induction l generalizing page with
  | nil => simp at hb
  | cons e l ih =>
    by_cases hq : q e
    · rw [List.filter_cons_of_pos hq, List.map_cons, List.mem_cons] at hb
      rw [scan]
      by_cases hpage : key e ∈ page.map key
      · rw [if_neg (by simp [freshKey, hpage])]
        rcases hb with rfl | hb
        · rw [List.map_append]
          exact List.mem_append_left _ hpage
        · exact ih page hb
      · rw [if_pos (by simp [freshKey, hpage, hq]), List.map_append, List.map_cons]
        rcases hb with rfl | hb
        · exact List.mem_append_right _ List.mem_cons_self
        · have hnext := ih (if maxEnts ≤ page.length then [e] else page ++ [e]) hb
          split_ifs at hnext ⊢
          · exact List.mem_append_right _ hnext
          · rw [List.append_assoc, List.map_append] at hnext
            exact hnext
    · rw [List.filter_cons_of_neg hq] at hb
      rw [scan, if_neg (by simp [freshKey, hq])]
      exact ih page hb

theorem scan_nodup_iff (hpos : 0 < maxEnts) :
    ((scan (freshKey key q) maxEnts [] l).map key).Nodup ↔
      SameBlock maxEnts [] ((l.filter q).map key) := by
  have hnil : lastBlock maxEnts ([] : List α) = [] := List.drop_nil
  have hseen : (([] : List α).map key).Nodup := List.nodup_nil
  have h : ((([] : List α) ++ scan (freshKey key q) maxEnts (lastBlock maxEnts []) l).map
      key).Nodup ↔ SameBlock maxEnts [] ((l.filter q).map key) :=
    (scan_nodup_iff_of_seen hpos hseen).1
  rw [hnil] at h
  exact h

theorem scan_eq_firsts (hpos : 0 < maxEnts)
    (hblock : SameBlock maxEnts [] ((l.filter q).map key)) :
    scan (freshKey key q) maxEnts [] l = firsts key [] (l.filter q) := by
  have hnil : lastBlock maxEnts ([] : List α) = [] := List.drop_nil
  have hseen : (([] : List α).map key).Nodup := List.nodup_nil
  have h : scan (freshKey key q) maxEnts (lastBlock maxEnts []) l = firsts key [] (l.filter q) :=
    (scan_nodup_iff_of_seen hpos hseen).2 hblock
  rw [hnil] at h
  exact h

end Keys

end Paging
