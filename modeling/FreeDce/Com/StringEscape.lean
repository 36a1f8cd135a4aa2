/-
Escapes in string bindings (comutil.c, combind.c).

After an escape `rpc__strcspn` passes over the escaped character and over the one behind it, and
counts all three as one.  So it may pass over the end of the string, and the number it returns is
less than the place of the terminator.  Here the scanner and the parser say when they do the first;
apart from that they are those of `StringBinding`.

* `strcspn_exact_iff` — the scanner is right, for all sets of terminators, in the strings without
  a backslash;
* `parse_escaped_iff` — the endpoints that the parser returns are those without delimiters, blanks
  and escapes;
* `escapes_exact` — both.
-/
import FreeDce.Com.StringBindingParse

namespace StringBinding

/-! ### The scanner at the end of the string -/

/-- `rpc__strcspn`; `none` when it reads behind the terminating null. -/
def strcspnIn (termSet : Str) : Str → Bool → ℕ → Option ℕ
  | [], _, _ => some 0
  | '\\' :: [], _, _ => some 0
  | '\\' :: _ :: [], _, _ => none
  | '\\' :: d :: _ :: ptr, _, count => strcspnIn termSet ptr (d = '\\') (count + 1)
  | _ :: [], true, _ => none
  | _ :: _ :: ptr, true, count => strcspnIn termSet ptr false (count + 1)
  | c :: ptr, false, count =>
    if c ∈ termSet then some count else strcspnIn termSet ptr false (count + 1)

/-- The place of the first character of the set that no backslash stands before, unless that one is
escaped itself. -/
def firstUnescaped (termSet : Str) : Str → Bool → Option ℕ
  | [], _ => none
  | c :: s, escaped =>
    if escaped = false ∧ c ∈ termSet then some 0
    else (firstUnescaped termSet s (escaped = false ∧ c = '\\')).map (· + 1)

/-- The number that `rpc__strcspn` is to return. -/
def cspnSpec (termSet s : Str) : ℕ :=
  match firstUnescaped termSet s false with
  | none => 0
  | some i => i + 1

/-- The scanner returns that number, and stays within the string. -/
def ScansRight (termSet s : Str) : Prop := strcspnIn termSet s false 1 = some (cspnSpec termSet s)

/-! ### The parser on top of it -/

def nextTokenIn (ptr : Str) : Option (Str × Bool) := do
  let count ← strcspnIn ['=', ','] ptr false 1
  if count = 0 ∨ ptr[count - 1]? ≠ some '=' then some (ptr, true)
  else
    let (ptr, count) := skipBlanks ptr count
    if strncmpEq ptr endpointTag (count - 1) then some (ptr.drop count, true) else some (ptr, false)

/-- The loop over the bracketed part; the outer `none` is a read behind the string, the inner one
`rpc_s_invalid_string_binding`. -/
def tokenLoopIn : ℕ → Str → Option Str → Str → Option (Option (Option Str × Str))
  | 0, _, endpoint, options => some (some (endpoint, options))
  | n + 1, ptr, endpoint, options =>
    if ptr = [] then some (some (endpoint, options))
    else
      match nextTokenIn ptr with
      | none => none
      | some (ptr, true) =>
        match strcspnIn [',', ']'] ptr false 1 with
        | none => none
        | some count =>
          if count = 0 ∨ endpoint ≠ none then some none
          else
            tokenLoopIn n (ptr.drop count) (some ((ptr.take (count - 1)).filter (· ≠ '\\'))) options
      | some (ptr, false) =>
        match strcspnIn [',', ']'] ptr false 1 with
        | none => none
        | some count =>
          if count = 0 then some none
          else tokenLoopIn n (ptr.drop count) endpoint (options ++ ptr.take count)

/-- `rpc_string_binding_parse`. -/
def parseIn (stringBinding : Str) : Option (Option Parsed) := do
  let ptr := stringBinding
  let count ← strcspnIn ['@'] ptr false 1
  let uuid := ptr.take (count - 1)
  let ptr := ptr.drop count
  let count ← strcspnIn [':'] ptr false 1
  let protseq := ptr.take (count - 1)
  let ptr := ptr.drop count
  let count ← strcspnIn ['['] ptr false 1
  if count = 0 then
    some (some { uuid := strsqz uuid, protseq := strsqz protseq, netaddr := strsqz ptr
                 endpoint := [], networkOptions := [] })
  else
    let netaddr := ptr.take (count - 1)
    let ptr := ptr.drop count
    match ← tokenLoopIn ptr.length ptr none [] with
    | none => some none
    | some (endpoint, options) =>
      some (some { uuid := strsqz uuid, protseq := strsqz protseq, netaddr := strsqz netaddr
                   endpoint := strsqz (endpoint.getD []),
                   networkOptions := (strsqz options).dropLast })

/-- The characters that are escaped in an endpoint. -/
def special : Str := ['\\', ',', '=', '[', ']']

/-- The endpoint with a backslash before each of them. -/
def escape : Str → Str
  | [] => []
  | c :: s => if c ∈ special then '\\' :: c :: escape s else c :: escape s

/-- The parser returns this endpoint from all string bindings that have it escaped, and stays within
them. -/
def ParsesBack (endpoint : Str) : Prop :=
  ∀ uuid protseq netaddr : Option Str, Plain (uuid.getD []) → Plain (protseq.getD []) →
    Plain (netaddr.getD []) →
    ∃ p, parseIn (compose uuid protseq netaddr (some (escape endpoint)) none) = some (some p) ∧
      p.endpoint = endpoint

variable {s t u v terms : Str} {c d : Char} {n m : ℕ} {fl : Bool}

/-! ### Without escapes -/

attribute [local simp] strcspnIn in
theorem strcspnIn_cons (hc : c ≠ '\\') :
    strcspnIn terms (c :: s) false n =
      if c ∈ terms then some n else strcspnIn terms s false (n + 1) := by
  simp [hc]

theorem strcspnIn_eq (hs : '\\' ∉ s) :
    strcspnIn terms s false n = some (strcspn terms s false n) := by
  induction s generalizing n with
  | nil => rw [strcspnIn, strcspn]
  | cons c s ih =>
    rw [List.mem_cons, not_or] at hs
    rw [strcspnIn_cons (Ne.symm hs.1), strcspn_cons (Ne.symm hs.1)]
    split
    · rfl
    · exact ih hs.2

theorem firstUnescaped_cons (hc : c ≠ '\\') : firstUnescaped terms (c :: s) false =
    if c ∈ terms then some 0 else (firstUnescaped terms s false).map (· + 1) := by
  have hd : decide (false = false ∧ c = '\\') = false := by simp [hc]
  rw [firstUnescaped, hd]
  simp only [true_and]

/-- The scanner is right where it meets a terminator before any backslash, or none of both. -/
theorem strcspnIn_eq_first : ∀ (s : Str) (n : ℕ),
    '\\' ∉ s.takeWhile (fun c => decide (c ∉ terms)) →
    (∀ c, (s.dropWhile (fun c => decide (c ∉ terms))).head? = some c → c ≠ '\\') →
    strcspnIn terms s false (n + 1) =
      some (match firstUnescaped terms s false with | none => 0 | some i => n + i + 1) := by
  intro s
  induction s with
  | nil =>
    intro n _ _
    rw [strcspnIn, firstUnescaped]
  | cons c s ih =>
    intro n hfree hhead
    by_cases hc : c ∈ terms
    · have hesc : c ≠ '\\' := hhead c (by simp [hc])
      rw [strcspnIn_cons hesc, firstUnescaped_cons hesc, if_pos hc, if_pos hc]
    · have hesc : c ≠ '\\' := by
        rintro rfl
        exact hfree (by simp [hc])
      rw [strcspnIn_cons hesc, firstUnescaped_cons hesc, if_neg hc, if_neg hc, ih (n + 1)]
      · cases firstUnescaped terms s false with
        | none => rfl
        | some i =>
          have hsum : n + 1 + i + 1 = n + (i + 1) + 1 := by omega
          simp only [Option.map_some, hsum]
      · intro hmem
        rw [List.takeWhile_cons_of_pos (by simpa using hc)] at hfree
        exact hfree (List.mem_cons_of_mem _ hmem)
      · intro d hd
        rw [List.dropWhile_cons_of_pos (by simpa using hc)] at hhead
        exact hhead d hd

/-! ### The backslash as a terminator -/

/-- It is never compared with the set. -/
theorem strcspnIn_backslash (s : Str) (fl : Bool) (n : ℕ) :
    strcspnIn ['\\'] s fl n = some 0 ∨ strcspnIn ['\\'] s fl n = none := by
  fun_induction strcspnIn ['\\'] s fl n with
  | case1 => exact .inl rfl
  | case2 => exact .inl rfl
  | case3 => exact .inr rfl
  | case4 _ _ _ _ _ ih => exact ih
  | case5 => exact .inr rfl
  | case6 _ _ _ _ _ _ ih => exact ih
  | case7 c ptr count h₁ h₂ h₃ hmem =>
    -- this would be a backslash that is not taken for an escape
    obtain rfl : c = '\\' := by simpa using hmem
    cases ptr with
    | nil => exact absurd rfl (h₁ rfl)
    | cons d ptr =>
      cases ptr with
      | nil => exact absurd rfl (h₂ d rfl)
      | cons e ptr => exact absurd rfl (h₃ d e ptr rfl)
  | case8 _ _ _ _ _ _ _ ih => exact ih

theorem firstUnescaped_backslash (hs : '\\' ∈ s) :
    ∃ i, firstUnescaped ['\\'] s false = some i := by
  induction s with
  | nil => cases hs
  | cons c s ih =>
    by_cases hc : c = '\\'
    · exact ⟨0, by rw [firstUnescaped, if_pos ⟨rfl, by simp [hc]⟩]⟩
    · obtain ⟨i, hi⟩ := ih ((List.mem_cons.mp hs).resolve_left (Ne.symm hc))
      exact ⟨i + 1, by rw [firstUnescaped_cons hc, if_neg (by simp [hc]), hi]; rfl⟩

/-- The scanner is right for all sets of terminators exactly when there is no backslash. -/
theorem strcspn_exact_iff (s : Str) : (∀ terms, ScansRight terms s) ↔ '\\' ∉ s := by
  constructor
  · intro h hs
    obtain ⟨i, hi⟩ := firstUnescaped_backslash hs
    have hright := h ['\\']
    rw [ScansRight, cspnSpec, hi] at hright
    rcases strcspnIn_backslash s false 1 with hz | hz
    · rw [hz] at hright
      cases hright
    · rw [hz] at hright
      cases hright
  · intro hs terms
    have hfree : '\\' ∉ s.takeWhile (fun c => decide (c ∉ terms)) :=
      fun hmem => hs ((List.takeWhile_prefix _).subset hmem)
    rw [ScansRight, strcspnIn_eq_first s 0 hfree]
    · rw [cspnSpec]
      cases firstUnescaped terms s false with
      | none => rfl
      | some i => simp only [Nat.zero_add]
    · rintro c hc rfl
      have hmem := List.mem_of_mem_head? hc
      exact hs ((List.dropWhile_suffix _).subset hmem)

/-! ### The parser with escapes -/

/-- The characters that are no backslash. -/
def visible (s : Str) : ℕ := (s.filter (· ≠ '\\')).length

theorem visible_append (s t : Str) : visible (s ++ t) = visible s + visible t := by
  rw [visible, List.filter_append, List.length_append, visible, visible]

theorem visible_take_drop (s : Str) (k : ℕ) : visible (s.take k) + visible (s.drop k) = visible s := by
  rw [← visible_append, List.take_append_drop]

/-- A terminator that is found is within the string. -/
theorem strcspnIn_lt (h : strcspnIn terms s fl n = some m) (hm : m ≠ 0) : m < n + s.length := by
  fun_induction strcspnIn terms s fl n with
  | case1 =>
    obtain rfl := Option.some.inj h
    exact absurd rfl hm
  | case2 =>
    obtain rfl := Option.some.inj h
    exact absurd rfl hm
  | case3 => cases h
  | case4 d e ptr fl count ih =>
    have hlt := ih h
    simp only [List.length_cons]
    omega
  | case5 => cases h
  | case6 c d ptr count h₁ h₂ ih =>
    have hlt := ih h
    simp only [List.length_cons]
    omega
  | case7 =>
    obtain rfl := Option.some.inj h
    rw [List.length_cons]
    omega
  | case8 c ptr count h₁ h₂ h₃ hmem ih =>
    have hlt := ih h
    rw [List.length_cons]
    omega

/-- After an escape the number is short of the terminator's place by two or more. -/
theorem strcspnIn_escape_lt (hu : Free terms u)
    (h : strcspnIn terms (u ++ '\\' :: v) false n = some m) (hm : m ≠ 0) :
    m + 2 < n + (u ++ '\\' :: v).length := by
  induction u generalizing n with
  | nil =>
    rw [List.nil_append] at h ⊢
    rcases v with _ | ⟨d, _ | ⟨e, v⟩⟩
    · rw [strcspnIn] at h
      obtain rfl := Option.some.inj h
      exact absurd rfl hm
    · rw [strcspnIn] at h
      cases h
    · rw [strcspnIn] at h
      have hlt := strcspnIn_lt h hm
      simp only [List.length_cons]
      omega
  | cons c u ih =>
    obtain ⟨hesc, hc⟩ := hu c List.mem_cons_self
    rw [List.cons_append, strcspnIn_cons hesc, if_neg hc] at h
    have hlt := ih (fun x hx => hu x (List.mem_cons_of_mem c hx)) h
    rw [List.cons_append, List.length_cons]
    omega

/-- A number that is not 0 is not below the one the count starts from. -/
theorem le_strcspnIn (h : strcspnIn terms s fl n = some m) (hm : m ≠ 0) : n ≤ m := by
  fun_induction strcspnIn terms s fl n with
  | case1 =>
    obtain rfl := Option.some.inj h
    exact absurd rfl hm
  | case2 =>
    obtain rfl := Option.some.inj h
    exact absurd rfl hm
  | case3 => cases h
  | case4 d e ptr fl count ih => exact (Nat.le_succ _).trans (ih h)
  | case5 => cases h
  | case6 c d ptr count h₁ h₂ ih => exact (Nat.le_succ _).trans (ih h)
  | case7 => exact (Option.some.inj h).le
  | case8 c ptr count h₁ h₂ h₃ hmem ih => exact (Nat.le_succ _).trans (ih h)

theorem skipBlanks_eq (ptr : Str) (n : ℕ) :
    ∃ b, skipBlanks ptr n = (ptr.drop b, n - b) ∧ (b = 0 ∨ ∃ c, ptr.head? = some c ∧ c ≠ '\\') := by
  induction ptr generalizing n with
  | nil => exact ⟨0, rfl, .inl rfl⟩
  | cons c ptr ih =>
    rw [skipBlanks]
    split
    · rename_i hblank
      obtain ⟨b, hb, -⟩ := ih (n - 1)
      refine ⟨b + 1, ?_, .inr ⟨c, rfl, ?_⟩⟩
      · have hsub : n - 1 - b = n - (b + 1) := by omega
        rw [hb, List.drop_succ_cons, hsub]
      · rcases hblank with rfl | rfl
        · decide
        · decide
    · exact ⟨0, rfl, .inl rfl⟩

/-- An endpoint that has been found stays. -/
theorem tokenLoopIn_some : ∀ (fuel : ℕ) (ptr ep opts : Str) {r : Option Str × Str},
    tokenLoopIn fuel ptr (some ep) opts = some (some r) → r.1 = some ep := by
  intro fuel
  induction fuel with
  | zero =>
    intro ptr ep opts r h
    rw [tokenLoopIn] at h
    obtain rfl := Option.some.inj (Option.some.inj h)
    rfl
  | succ fuel ih =>
    intro ptr ep opts r h
    rw [tokenLoopIn] at h
    split at h
    · obtain rfl := Option.some.inj (Option.some.inj h)
      rfl
    · split at h
      · cases h
      · split at h
        · cases h
        · rw [if_pos (.inr (by simp))] at h
          cases Option.some.inj h
      · split at h
        · cases h
        · split at h
          · cases Option.some.inj h
          · exact ih _ _ _ h

/-- The chunk that is copied leaves the last character out. -/
theorem length_chunk_lt (hs : s ≠ [] → s.getLast? ≠ some '\\')
    (h : strcspnIn terms s false 1 = some m) (hm : m ≠ 0) :
    ((s.take (m - 1)).filter (· ≠ '\\')).length + 1 ≤ visible s := by
  have hlt := strcspnIn_lt h hm
  have hne : s ≠ [] := by
    rintro rfl
    rw [strcspnIn] at h
    exact hm (Option.some.inj h).symm
  obtain ⟨x, c, rfl⟩ := List.eq_nil_or_concat'  s |>.resolve_left hne
  have hc : c ≠ '\\' := by
    rintro rfl
    exact hs hne (by simp)
  rw [List.length_append, List.length_singleton] at hlt
  have htake : (x ++ [c]).take (m - 1) = x.take (m - 1) :=
    List.take_append_of_le_length (by omega)
  have hle : visible (x.take (m - 1)) ≤ visible x := by
    have := visible_take_drop x (m - 1)
    omega
  have hlast : visible [c] = 1 := by
    rw [visible, List.filter_cons_of_pos (by simpa using hc)]
    rfl
  rw [htake, visible_append, hlast]
  exact Nat.add_le_add_right hle 1

theorem getLast?_drop {s : Str} {k : ℕ} (hs : s ≠ [] → s.getLast? ≠ some '\\') :
    s.drop k ≠ [] → (s.drop k).getLast? ≠ some '\\' := by
  intro hne hlast
  have hlen : k < s.length := by
    by_contra hge
    exact hne (List.drop_eq_nil_of_le (by omega))
  have hs' : s ≠ [] := by
    rintro rfl
    exact hne (by simp)
  refine hs hs' ?_
  rwa [List.getLast?_drop, if_neg (by omega)] at hlast

/-- What is found as the endpoint is shorter than the text. -/
theorem tokenLoopIn_length : ∀ (fuel : ℕ) (ptr opts : Str) {r : Option Str × Str} {ep : Str},
    (ptr ≠ [] → ptr.getLast? ≠ some '\\') →
    tokenLoopIn fuel ptr none opts = some (some r) → r.1 = some ep →
    ep.length + 1 ≤ visible ptr := by
  intro fuel
  induction fuel with
  | zero =>
    intro ptr opts r ep _ h hep
    rw [tokenLoopIn] at h
    obtain rfl := Option.some.inj (Option.some.inj h)
    cases hep
  | succ fuel ih =>
    intro ptr opts r ep hlast h hep
    rw [tokenLoopIn] at h
    split at h
    · obtain rfl := Option.some.inj (Option.some.inj h)
      cases hep
    · have htoken : ∀ ptr' b, nextTokenIn ptr = some (ptr', b) → ∃ k, ptr' = ptr.drop k := by
        intro ptr' b hnext
        rw [nextTokenIn] at hnext
        obtain ⟨count, -, hnext⟩ := Option.bind_eq_some_iff.mp hnext
        split at hnext
        · cases hnext
          exact ⟨0, rfl⟩
        · obtain ⟨b', hb', -⟩ := skipBlanks_eq ptr count
          rw [hb'] at hnext
          simp only at hnext
          split at hnext
          · cases hnext
            exact ⟨b' + (count - b'), by rw [List.drop_drop]⟩
          · cases hnext
            exact ⟨b', rfl⟩
      have hdrop : ∀ k, visible (ptr.drop k) ≤ visible ptr := by
        intro k
        have := visible_take_drop ptr k
        omega
      split at h
      · cases h
      · rename_i ptr' hnext
        obtain ⟨k, rfl⟩ := htoken _ _ hnext
        split at h
        · cases h
        · rename_i count hcount
          split at h
          · cases Option.some.inj h
          · rename_i hnot
            rw [not_or] at hnot
            rw [tokenLoopIn_some _ _ _ _ h] at hep
            obtain rfl := Option.some.inj hep
            exact (length_chunk_lt (getLast?_drop hlast) hcount hnot.1).trans (hdrop k)
      · rename_i ptr' hnext
        obtain ⟨k, rfl⟩ := htoken _ _ hnext
        split at h
        · cases h
        · rename_i count hcount
          split at h
          · cases Option.some.inj h
          · rw [List.drop_drop] at h
            exact (ih _ _ (getLast?_drop hlast) h hep).trans (hdrop _)

/-! ### Escaped endpoints -/

/-- No two backslashes stand side by side. -/
def Sparse (s : Str) : Prop := s.IsChain (fun a b => a ≠ '\\' ∨ b ≠ '\\')

theorem Sparse.cons (hc : c ≠ '\\') (hs : Sparse s) : Sparse (c :: s) := by
  cases s with
  | nil => exact List.isChain_singleton c
  | cons d s => exact List.isChain_cons_cons.mpr ⟨.inl hc, hs⟩

theorem sparse_escape (hs : '\\' ∉ s) : Sparse (escape s ++ [']']) := by
  induction s with
  | nil => exact List.isChain_singleton _
  | cons c s ih =>
    rw [List.mem_cons, not_or] at hs
    have hc : c ≠ '\\' := Ne.symm hs.1
    have htail : Sparse (c :: (escape s ++ [']'])) := (ih hs.2).cons hc
    rw [escape]
    split
    · exact List.isChain_cons_cons.mpr ⟨.inr hc, htail⟩
    · exact htail

theorem visible_escape (hs : '\\' ∉ s) : visible (escape s) = s.length := by
  induction s with
  | nil => rfl
  | cons c s ih =>
    rw [List.mem_cons, not_or] at hs
    have hc : c ≠ '\\' := Ne.symm hs.1
    have htail : visible (c :: escape s) = (c :: s).length := by
      have hih := ih hs.2
      rw [visible] at hih
      rw [visible, List.filter_cons_of_pos (by simpa using hc), List.length_cons, hih,
        List.length_cons]
    rw [escape]
    split
    · rw [visible, List.filter_cons_of_neg (by simp)]
      exact htail
    · exact htail

theorem escape_eq_self (hs : ∀ c ∈ s, c ∉ special) : escape s = s := by
  induction s with
  | nil => rfl
  | cons c s ih =>
    rw [escape, if_neg (hs c List.mem_cons_self), ih fun d hd => hs d (List.mem_cons_of_mem c hd)]

/-- The first escape, and what stands before it. -/
theorem escape_split (hs : ∃ c ∈ s, c ∈ special) :
    ∃ u v, escape s = u ++ '\\' :: v ∧ ∀ c ∈ u, c ∉ special := by
  induction s with
  | nil =>
    obtain ⟨c, hc, -⟩ := hs
    cases hc
  | cons c s ih =>
    by_cases hc : c ∈ special
    · exact ⟨[], c :: escape s, by rw [escape, if_pos hc]; rfl, fun d hd => absurd hd (by simp)⟩
    · have hrest : ∃ c ∈ s, c ∈ special := by
        obtain ⟨d, hd, hd'⟩ := hs
        rcases List.mem_cons.mp hd with rfl | hd
        · exact absurd hd' hc
        · exact ⟨d, hd, hd'⟩
      obtain ⟨u, v, huv, hu⟩ := ih hrest
      refine ⟨c :: u, v, by rw [escape, if_neg hc, huv]; rfl, ?_⟩
      intro d hd
      rcases List.mem_cons.mp hd with rfl | hd
      · exact hc
      · exact hu d hd

/-- Of two characters one is no backslash. -/
theorem Sparse.visible_pos (hs : Sparse s) (hlen : 2 ≤ s.length) : 1 ≤ visible s := by
  rcases s with _ | ⟨a, _ | ⟨b, s⟩⟩
  · simp at hlen
  · simp at hlen
  · rw [visible, Nat.one_le_iff_ne_zero, ne_eq, List.length_eq_zero_iff, List.filter_eq_nil_iff]
    intro hall
    rcases (List.isChain_cons_cons.mp hs).1 with ha | hb
    · exact hall a (by simp) (by simpa using ha)
    · exact hall b (by simp) (by simpa using hb)

theorem Sparse.visible_take (hs : Sparse s) {k : ℕ} (hk : 1 ≤ k) (hlen : k ≤ s.length)
    (hhead : s.head? = some '\\' → 2 ≤ k) : 1 ≤ visible (s.take k) := by
  by_cases hh : s.head? = some '\\'
  · exact Sparse.visible_pos (hs.take k) (by rw [List.length_take]; have := hhead hh; omega)
  · cases s with
    | nil => simp at hlen; omega
    | cons c s =>
      obtain ⟨j, rfl⟩ : ∃ j, k = j + 1 := ⟨k - 1, by omega⟩
      have hc : c ≠ '\\' := fun hc => hh (by rw [hc]; rfl)
      rw [List.take_succ_cons, visible, List.filter_cons_of_pos (by simpa using hc),
        List.length_cons]
      omega

/-- A number that an escape comes before is 2 or more. -/
theorem two_le_strcspnIn (h : strcspnIn terms s false 1 = some m) (hm : m ≠ 0)
    (hhead : s.head? = some '\\') : 2 ≤ m := by
  rcases s with _ | ⟨c, _ | ⟨d, _ | ⟨e, s⟩⟩⟩
  · cases hhead
  · obtain rfl := Option.some.inj hhead
    rw [strcspnIn] at h
    exact absurd (Option.some.inj h).symm hm
  · obtain rfl := Option.some.inj hhead
    rw [strcspnIn] at h
    cases h
  · obtain rfl := Option.some.inj hhead
    rw [strcspnIn] at h
    exact le_strcspnIn h hm

/-- A first chunk that leaves three characters misses two that are no backslashes. -/
theorem Sparse.visible_take_lt (hs : Sparse s) {k n : ℕ} (hlen : k + 3 ≤ s.length)
    (hlast : s.drop k ≠ [] → (s.drop k).getLast? ≠ some '\\') (hvis : visible s = n + 1) :
    visible (s.take k) < n := by
  have hsum := visible_take_drop s k
  obtain ⟨x, y, hxy⟩ : ∃ x y, s.drop k = x ++ [y] := by
    rcases List.eq_nil_or_concat' (s.drop k) with hnil | ⟨x, y, hxy⟩
    · have hz := congrArg List.length hnil
      rw [List.length_drop, List.length_nil] at hz
      omega
    · exact ⟨x, y, hxy⟩
  have hlength := congrArg List.length hxy
  rw [List.length_drop, List.length_append, List.length_singleton] at hlength
  -- one of them is the last character, another among those before it
  have hx : 1 ≤ visible x := by
    have hdrop : Sparse (x ++ [y]) := by
      rw [← hxy]
      exact hs.drop _
    refine Sparse.visible_pos (List.IsChain.left_of_append hdrop) ?_
    omega
  have hy : visible [y] = 1 := by
    have hl := hlast (by rw [hxy]; simp)
    rw [hxy] at hl
    have hyne : y ≠ '\\' := by
      rintro rfl
      exact hl (by simp)
    rw [visible, List.filter_cons_of_pos (by simpa using hyne)]
    rfl
  rw [hxy, visible_append, hy, hvis] at hsum
  omega

/-- The endpoint that is found is shorter than the one that was escaped. -/
theorem tokenLoopIn_escaped {e : Str} (he : '\\' ∉ e) (hsp : ∃ c ∈ e, c ∈ special) (fuel : ℕ)
    {r : Option Str × Str} {ep : Str}
    (h : tokenLoopIn fuel (escape e ++ [']']) none [] = some (some r)) (hep : r.1 = some ep) :
    ep.length < e.length := by
  obtain ⟨u, v, huv, hu⟩ := escape_split hsp
  have hsparse := sparse_escape he
  have hlast : ∀ k, (escape e ++ [']']).drop k ≠ [] →
      ((escape e ++ [']']).drop k).getLast? ≠ some '\\' := by
    intro k
    refine getLast?_drop fun _ => ?_
    rw [List.getLast?_append]
    simp
  have hvis : visible (escape e ++ [']']) = e.length + 1 := by
    rw [visible_append, visible_escape he]
    rfl
  have hform : escape e ++ [']'] = u ++ '\\' :: (v ++ [']']) := by
    rw [huv, List.append_assoc, List.cons_append]
  have hfree : ∀ terms, (∀ c ∈ terms, c ∈ special) → Free terms u := by
    intro terms hterms c hc
    refine ⟨?_, fun hmem => hu c hc (hterms c hmem)⟩
    rintro rfl
    exact hu _ hc (by decide)
  generalize escape e ++ [']'] = text at *
  have hrest : ∀ k, 1 ≤ k → (text.head? = some '\\' → 2 ≤ k) →
      visible (text.drop k) ≤ e.length := by
    intro k hk hhead
    have hsum := visible_take_drop text k
    by_cases hlen : k ≤ text.length
    · have hpos := hsparse.visible_take hk hlen hhead
      omega
    · rw [List.drop_eq_nil_of_le (by omega)]
      exact Nat.zero_le _
  cases fuel with
  | zero =>
    rw [tokenLoopIn] at h
    obtain rfl := Option.some.inj (Option.some.inj h)
    cases hep
  | succ fuel =>
    have hne : text ≠ [] := by
      rw [hform]
      simp
    rw [tokenLoopIn, if_neg hne, nextTokenIn] at h
    cases hcount : strcspnIn ['=', ','] text false 1 with
    | none =>
      rw [hcount] at h
      cases h
    | some count =>
      rw [hcount] at h
      simp only [Option.bind_eq_bind, Option.bind_some] at h
      by_cases hno : count = 0 ∨ text[count - 1]? ≠ some '='
      · -- the endpoint begins the text, and the scanner stops short of its end
        rw [if_pos hno] at h
        simp only at h
        split at h
        · cases h
        · rename_i m hm
          split at h
          · cases Option.some.inj h
          · rename_i hnot
            rw [not_or] at hnot
            rw [tokenLoopIn_some _ _ _ _ h] at hep
            obtain rfl := Option.some.inj hep
            rw [hform] at hm
            have hshort := strcspnIn_escape_lt (hfree [',', ']'] (by simp [special])) hm hnot.1
            rw [← hform] at hshort
            exact hsparse.visible_take_lt (by omega) (hlast (m - 1)) hvis
      · rw [not_or, not_not] at hno
        rw [if_neg (by rw [not_or, not_not]; exact hno)] at h
        obtain ⟨b, hb, hblank⟩ := skipBlanks_eq text count
        have hb0 : text.head? = some '\\' → b = 0 := by
          intro hh
          rcases hblank with h0 | ⟨c, hc, hc'⟩
          · exact h0
          · rw [hh] at hc
            exact absurd (Option.some.inj hc).symm hc'
        rw [hb] at h
        simp only at h
        split at h
        · cases h
        · rename_i ptr' hnext
          split at hnext
          · cases hnext
            split at h
            · cases h
            · rename_i m hm
              split at h
              · cases Option.some.inj h
              · rename_i hnot
                rw [not_or] at hnot
                rw [tokenLoopIn_some _ _ _ _ h] at hep
                obtain rfl := Option.some.inj hep
                rw [List.drop_drop] at hm ⊢
                have hchunk := length_chunk_lt (hlast _) hm hnot.1
                have hk := hrest (b + (count - b)) (by omega) (fun hh => by
                  have := two_le_strcspnIn hcount hno.1 hh
                  omega)
                omega
          · cases hnext
        · rename_i ptr' hnext
          split at hnext
          · cases hnext
          · cases hnext
            split at h
            · cases h
            · rename_i m hm
              split at h
              · cases Option.some.inj h
              · rename_i hnot
                rw [List.drop_drop] at h
                have hlen := tokenLoopIn_length _ _ _ (hlast _) h hep
                have hk := hrest (b + m) (by omega) (fun hh => by
                  have hb' := hb0 hh
                  subst hb'
                  rw [List.drop_zero] at hm
                  have := two_le_strcspnIn hm hnot hh
                  omega)
                omega

/-! ### Which endpoints are parsed back -/

theorem tokenLoopIn_no_backslash : ∀ (fuel : ℕ) (ptr opts : Str) {r : Option Str × Str} {ep : Str},
    tokenLoopIn fuel ptr none opts = some (some r) → r.1 = some ep → '\\' ∉ ep := by
  intro fuel
  induction fuel with
  | zero =>
    intro ptr opts r ep h hep
    rw [tokenLoopIn] at h
    obtain rfl := Option.some.inj (Option.some.inj h)
    cases hep
  | succ fuel ih =>
    intro ptr opts r ep h hep
    rw [tokenLoopIn] at h
    split at h
    · obtain rfl := Option.some.inj (Option.some.inj h)
      cases hep
    · split at h
      · cases h
      · split at h
        · cases h
        · split at h
          · cases Option.some.inj h
          · rw [tokenLoopIn_some _ _ _ _ h] at hep
            obtain rfl := Option.some.inj hep
            simp
      · split at h
        · cases h
        · split at h
          · cases Option.some.inj h
          · exact ih _ _ h hep

theorem strsqz_no_blank (hs : '\\' ∉ s) : ∀ c ∈ strsqz s, c ∈ s ∧ c ≠ ' ' ∧ c ≠ '\t' := by
  induction s with
  | nil =>
    intro c hc
    cases hc
  | cons d s ih =>
    rw [List.mem_cons, not_or] at hs
    rw [strsqz_cons (Ne.symm hs.1)]
    intro c hc
    split at hc
    · obtain ⟨hmem, hblank⟩ := ih hs.2 c hc
      exact ⟨List.mem_cons_of_mem d hmem, hblank⟩
    · rename_i hd
      rcases List.mem_cons.mp hc with rfl | hc
      · exact ⟨List.mem_cons_self, not_or.mp hd⟩
      · obtain ⟨hmem, hblank⟩ := ih hs.2 c hc
        exact ⟨List.mem_cons_of_mem d hmem, hblank⟩

theorem mem_of_drop {k : ℕ} (hs : '\\' ∉ s) : '\\' ∉ s.drop k :=
  fun h => hs (List.mem_of_mem_drop h)

theorem nextTokenIn_eq (hs : '\\' ∉ s) : nextTokenIn s = some (nextToken s) := by
  rw [nextTokenIn, strcspnIn_eq hs]
  simp only [Option.bind_eq_bind, Option.bind_some, nextToken]
  split
  · rfl
  · split
    · rfl
    · rfl

theorem nextToken_suffix (hs : '\\' ∉ s) : '\\' ∉ (nextToken s).1 := by
  simp only [nextToken]
  split
  · exact hs
  · obtain ⟨b, hb, -⟩ := skipBlanks_eq s (strcspn ['=', ','] s false 1)
    rw [hb]
    simp only
    split
    · exact mem_of_drop (mem_of_drop hs)
    · exact mem_of_drop hs

/-- Without a backslash the parser stays within the string. -/
theorem tokenLoopIn_eq : ∀ (fuel : ℕ) (ptr : Str) (ep : Option Str) (opts : Str), '\\' ∉ ptr →
    tokenLoopIn fuel ptr ep opts = some (tokenLoop fuel ptr ep opts) := by
  intro fuel
  induction fuel with
  | zero =>
    intro ptr ep opts _
    rw [tokenLoopIn, tokenLoop]
  | succ fuel ih =>
    intro ptr ep opts hs
    have hsuf := nextToken_suffix hs
    rw [tokenLoopIn, tokenLoop, nextTokenIn_eq hs]
    split
    · rfl
    · generalize nextToken ptr = token at hsuf
      obtain ⟨ptr', b⟩ := token
      simp only at hsuf
      have hdrop := fun k => mem_of_drop (k := k) hsuf
      cases b with
      | false =>
        simp only [strcspnIn_eq hsuf]
        split
        · rfl
        · exact ih _ _ _ (hdrop _)
      | true =>
        simp only [strcspnIn_eq hsuf]
        split
        · rfl
        · exact ih _ _ _ (hdrop _)

theorem parseIn_eq (hs : '\\' ∉ s) : parseIn s = some (parse s) := by
  have h₁ := mem_of_drop (k := strcspn ['@'] s false 1) hs
  have h₂ := mem_of_drop (k := strcspn [':'] (s.drop (strcspn ['@'] s false 1)) false 1) h₁
  simp only [parseIn, parse, Option.bind_eq_bind, strcspnIn_eq hs, strcspnIn_eq h₁,
    strcspnIn_eq h₂, Option.bind_some]
  split
  · rfl
  · rw [tokenLoopIn_eq _ _ _ _ (mem_of_drop h₂), Option.bind_some]
    cases tokenLoop _ _ none [] with
    | none => rfl
    | some r => rfl

/-- The parser with the parts before the bracket out of the way. -/
theorem parseIn_bracket {p : Parsed}
    (h : parseIn ('u' :: '@' :: 'p' :: ':' :: '[' :: t) = some (some p)) :
    ∃ r, tokenLoopIn t.length t none [] = some (some r) ∧ p.endpoint = strsqz (r.1.getD []) := by
  have hu : strcspnIn ['@'] ('u' :: '@' :: 'p' :: ':' :: '[' :: t) false 1 = some 2 := by
    rw [strcspnIn_cons (by decide), if_neg (by decide), strcspnIn_cons (by decide),
      if_pos (by decide)]
  have hp : strcspnIn [':'] ('p' :: ':' :: '[' :: t) false 1 = some 2 := by
    rw [strcspnIn_cons (by decide), if_neg (by decide), strcspnIn_cons (by decide),
      if_pos (by decide)]
  have hb : strcspnIn ['['] ('[' :: t) false 1 = some 1 := by
    rw [strcspnIn_cons (by decide), if_pos (by decide)]
  simp only [parseIn, Option.bind_eq_bind, hu, Option.bind_some, List.drop_succ_cons,
    List.drop_zero, hp, hb, Nat.one_ne_zero, if_false] at h
  obtain ⟨o, ho, h⟩ := Option.bind_eq_some_iff.mp h
  cases o with
  | none => cases Option.some.inj h
  | some r =>
    refine ⟨r, ho, ?_⟩
    obtain rfl := Option.some.inj (Option.some.inj h)
    rfl

/-- A delimiter behind the bracket is found, and what stands behind it is left. -/
theorem strcspn_bracket {d : Char} {a : Str} (b : Str) (hd : d ≠ '\\' ∧ d ≠ '[') (ha : d ∉ a)
    (hesc : '\\' ∉ a) :
    strcspn [d] ('[' :: (a ++ d :: b ++ [']'])) false 1 = a.length + 2 ∧
      ('[' :: (a ++ d :: b ++ [']'])).drop (a.length + 2) = b ++ [']'] := by
  constructor
  · have hfree : Free [d] ('[' :: a) := by
      refine Free.cons ⟨by decide, ?_⟩ fun c hc => ⟨fun h => hesc (h ▸ hc), ?_⟩
      · rw [List.mem_singleton]
        exact hd.2.symm
      · rw [List.mem_singleton]
        rintro rfl
        exact ha hc
    have hfind : strcspn [d] ('[' :: a ++ d :: (b ++ [']'])) false 1 = 1 + ('[' :: a).length :=
      strcspn_append hfree List.mem_cons_self hd.1
    rw [List.append_assoc, List.cons_append, ← List.cons_append, hfind, List.length_cons]
    omega
  · have hform : '[' :: (a ++ d :: b ++ [']']) = ('[' :: (a ++ [d])) ++ (b ++ [']']) := by simp
    rw [hform]
    exact List.drop_left' (by simp)

/-- The parser finds no endpoint when a delimiter of an earlier part stands in it. -/
theorem parse_delimiter {e : Str} (hsp : ∀ c ∈ e, c ∉ special) {p : Parsed}
    (hd : '@' ∈ e ∨ ':' ∈ e) (h : parse ('[' :: (e ++ [']'])) = some p) : p.endpoint = [] := by
  have hesc : ∀ c ∈ e, c ≠ '\\' ∧ c ≠ '[' := by
    intro c hc
    refine ⟨?_, ?_⟩
    · rintro rfl
      exact hsp _ hc (by decide)
    · rintro rfl
      exact hsp _ hc (by decide)
  have hno : ∀ x : Str, x <:+ e → Free ['['] (x ++ [']']) := by
    intro x hx
    refine Free.append (fun c hc => ?_) (Free.cons (by decide) free_nil)
    have hmem := hesc c (hx.subset hc)
    exact ⟨hmem.1, by simpa using hmem.2⟩
  have hdropno : ∀ (x : Str) (k : ℕ), x <:+ e → Free ['['] ((x ++ [']']).drop k) :=
    fun x k hx c hc => hno x hx c (List.mem_of_mem_drop hc)
  simp only [parse, Option.bind_eq_bind] at h
  by_cases hat : '@' ∈ e
  · obtain ⟨a, b, rfl, ha⟩ := List.eq_append_cons_of_mem hat
    obtain ⟨hcount, hdrop⟩ := strcspn_bracket b (by decide) ha
      fun hmem => (hesc _ (List.mem_append_left _ hmem)).1 rfl
    have hsuf : b <:+ a ++ '@' :: b := ⟨a ++ ['@'], by simp⟩
    rw [hcount, hdrop, strcspn_eq_zero (hdropno b _ hsuf), if_pos rfl] at h
    obtain rfl := Option.some.inj h
    rfl
  · have hcolon := hd.resolve_left hat
    obtain ⟨a, b, rfl, ha⟩ := List.eq_append_cons_of_mem hcolon
    have hzero : strcspn ['@'] ('[' :: (a ++ ':' :: b ++ [']'])) false 1 = 0 := by
      refine strcspn_eq_zero (Free.cons (by decide) (Free.append (fun c hc => ?_)
        (Free.cons (by decide) free_nil)))
      refine ⟨(hesc c hc).1, ?_⟩
      rw [List.mem_singleton]
      rintro rfl
      exact hat hc
    obtain ⟨hcount, hdrop⟩ := strcspn_bracket b (by decide) ha
      fun hmem => (hesc _ (List.mem_append_left _ hmem)).1 rfl
    have hsuf : b <:+ a ++ ':' :: b := ⟨a ++ [':'], by simp⟩
    rw [hzero, List.drop_zero, hcount, hdrop, strcspn_eq_zero (hno b hsuf), if_pos rfl] at h
    obtain rfl := Option.some.inj h
    rfl

/-- The endpoints that come back are the plain ones. -/
theorem parse_escaped_iff (endpoint : Str) : ParsesBack endpoint ↔ Plain endpoint := by
  constructor
  · intro h
    obtain ⟨p, hp, hpe⟩ := h (some ['u']) (some ['p']) none (by simp [Plain]) (by simp [Plain])
      (by simp [Plain])
    have hcomp : compose (some ['u']) (some ['p']) none (some (escape endpoint)) none =
        'u' :: '@' :: 'p' :: ':' :: '[' :: (escape endpoint ++ [']']) := by
      simp [compose]
    rw [hcomp] at hp
    obtain ⟨r, hloop, hend⟩ := parseIn_bracket hp
    -- what is found has neither backslashes nor blanks
    have hfound : '\\' ∉ r.1.getD [] := by
      cases hr : r.1 with
      | none => simp
      | some ep => exact tokenLoopIn_no_backslash _ _ _ hloop hr
    have hclean := strsqz_no_blank hfound
    rw [← hend, hpe] at hclean
    have hback : '\\' ∉ endpoint := fun hmem => hfound (hclean _ hmem).1
    -- an escaped character would make what is found too short
    have hsp : ∀ c ∈ endpoint, c ∉ special := by
      by_contra hex
      push Not at hex
      cases hr : r.1 with
      | none =>
        rw [hr, hpe] at hend
        obtain ⟨c, hc, -⟩ := hex
        rw [hend] at hc
        cases hc
      | some ep =>
        have hlt := tokenLoopIn_escaped hback hex _ hloop hr
        rw [hr, hpe] at hend
        have hle := length_strsqz_le ep
        rw [Option.getD_some] at hend
        rw [← hend] at hle
        omega
    -- nothing stands before the bracket here, so a delimiter behind it is taken for one
    have hdelim : ¬ ('@' ∈ endpoint ∨ ':' ∈ endpoint) := by
      intro hd
      obtain ⟨q, hq, hqe⟩ := h none none none (by simp [Plain]) (by simp [Plain]) (by simp [Plain])
      have hcomp' : compose none none none (some (escape endpoint)) none =
          '[' :: (endpoint ++ [']']) := by
        simp [compose, escape_eq_self hsp]
      have hno : '\\' ∉ '[' :: (endpoint ++ [']']) := by simp [hback]
      rw [hcomp', parseIn_eq hno] at hq
      have hnil := parse_delimiter hsp hd (Option.some.inj hq)
      rw [hqe] at hnil
      rw [hnil] at hd
      simp at hd
    intro c hc hmem
    have h₁ := hsp c hc
    have h₂ := (hclean c hc).2
    rw [not_or] at hdelim
    simp only [special, List.mem_cons, List.not_mem_nil, or_false, not_or] at h₁ hmem
    rcases hmem with rfl | rfl | rfl | rfl | rfl | rfl | rfl | rfl | rfl
    · exact hdelim.1 hc
    · exact hdelim.2 hc
    · exact h₁.2.2.2.1 rfl
    · exact h₁.2.2.2.2 rfl
    · exact h₁.2.1 rfl
    · exact h₁.2.2.1 rfl
    · exact h₁.1 rfl
    · exact h₂.1 rfl
    · exact h₂.2 rfl
  · intro hplain uuid protseq netaddr hu hp hn
    have hesc : escape endpoint = endpoint := by
      refine escape_eq_self fun c hc hmem => hplain c hc ?_
      simp only [special, List.mem_cons, List.not_mem_nil, or_false] at hmem
      rcases hmem with rfl | rfl | rfl | rfl | rfl
      · decide
      · decide
      · decide
      · decide
      · decide
    have hparts : PlainParts uuid protseq netaddr (some endpoint) none :=
      ⟨hu, hp, hn, hplain, fun o ho => by cases ho⟩
    have hparse := (parse_compose_iff hparts).mpr (fun o ho => by cases ho)
    have hnone : (none : Option (List NetOption)).map optionString = none := rfl
    rw [hnone] at hparse
    have hback : '\\' ∉ compose uuid protseq netaddr (some endpoint) none := by
      have hfree : ∀ s, Plain s → '\\' ∉ s := fun s hs hmem => hs _ hmem (by decide)
      have heq : compose uuid protseq netaddr (some endpoint)
          ((none : Option (List NetOption)).map optionString) = _ := compose_eq
      rw [hnone] at heq
      rw [heq]
      simp only [List.mem_append, not_or, bracketed]
      refine ⟨?_, ?_, hfree _ hn, ?_⟩
      · split
        · simpa using hfree _ hu
        · simp
      · split
        · simpa using hfree _ hp
        · simp
      · simpa [optionString] using hfree _ hplain
    rw [hesc]
    exact ⟨_, by rw [parseIn_eq hback, hparse], rfl⟩

/-- **The scanner and the parser do what they are to do where no escapes are.** -/
theorem escapes_exact (s endpoint : Str) :
    (∀ terms, '\\' ∉ s.takeWhile (fun c => decide (c ∉ terms)) →
      (∀ c, (s.dropWhile (fun c => decide (c ∉ terms))).head? = some c → c ≠ '\\') →
      ScansRight terms s) ∧
    ((∀ terms, ScansRight terms s) ↔ '\\' ∉ s) ∧
    (ParsesBack endpoint ↔ Plain endpoint) := by
  refine ⟨fun terms hfree hhead => ?_, strcspn_exact_iff s, parse_escaped_iff endpoint⟩
  rw [ScansRight, strcspnIn_eq_first s 0 hfree hhead, cspnSpec]
  cases firstUnescaped terms s false with
  | none => rfl
  | some i => simp only [Nat.zero_add]

/-- In `a\,b]` the number is to be 5, and the scanner returns 3; `\,` is read over its end;
and the endpoint `a,b` comes back from no string binding like `p:h[a\,b]`. -/
theorem escaped_endpoint_lost :
    strcspnIn [',', ']'] ['a', '\\', ',', 'b', ']'] false 1 = some 3 ∧
    cspnSpec [',', ']'] ['a', '\\', ',', 'b', ']'] = 5 ∧
    strcspnIn ['@'] ['\\', ','] false 1 = none ∧
    parseIn (compose none (some ['p']) (some ['h']) (some (escape ['a', ',', 'b'])) none) =
      some none := by
  decide

end StringBinding
