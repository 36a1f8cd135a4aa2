/-
Parsing what was composed.

A part without delimiters, blanks and escapes is found again by the parser, token by
token (`tokenLoop_options`).  The one exception is an option whose tag is a prefix of
`endpoint`: `strncmp` only compares as many characters as the tag has, and takes it for
the endpoint.  `parse_compose_iff` says that string bindings are parsed to the parts they
were composed from exactly when no tag is such a prefix.
-/
import FreeDce.Com.StringBinding

namespace StringBinding

variable {s t a rest terms : Str} {c : Char} {n : ℕ}

/-! ### Plain strings -/

/-- A string without delimiters, blanks and escapes. -/
def Plain (s : Str) : Prop := ∀ c ∈ s, c ∉ ['@', ':', '[', ']', ',', '=', '\\', ' ', '\t']

/-- No character of the string ends a token, nor is one an escape. -/
def Free (terms s : Str) : Prop := ∀ c ∈ s, c ≠ '\\' ∧ c ∉ terms

theorem Plain.free (h : Plain s)
    (hterms : ∀ c ∈ terms, c ∈ ['@', ':', '[', ']', ',', '=', '\\', ' ', '\t']) :
    Free terms s := by
  intro c hc
  have hplain := h c hc
  refine ⟨fun hesc => ?_, fun hmem => hplain (hterms c hmem)⟩
  subst hesc
  exact hplain (by decide)

theorem Free.append (hs : Free terms s) (ht : Free terms t) : Free terms (s ++ t) := by
  intro c hc
  rw [List.mem_append] at hc
  cases hc with
  | inl h => exact hs c h
  | inr h => exact ht c h

theorem Free.cons (hc : c ≠ '\\' ∧ c ∉ terms) (hs : Free terms s) : Free terms (c :: s) := by
  intro d hd
  rw [List.mem_cons] at hd
  cases hd with
  | inl h => exact h ▸ hc
  | inr h => exact hs d h

theorem strcspn_cons (hc : c ≠ '\\') :
    strcspn terms (c :: s) false n = if c ∈ terms then n else strcspn terms s false (n + 1) := by
  rw [strcspn]
  · intro h
    exact absurd h hc
  · intro d h
    exact absurd h hc
  · intro d e u h
    exact absurd h hc

/-- The terminator behind a token is found. -/
theorem strcspn_append (ha : Free terms a) (hc : c ∈ terms) (hesc : c ≠ '\\') :
    strcspn terms (a ++ c :: rest) false n = n + a.length := by
  induction a generalizing n with
  | nil => rw [List.nil_append, strcspn_cons hesc, if_pos hc, List.length_nil, Nat.add_zero]
  | cons d a ih =>
    obtain ⟨hd, hfree⟩ := ha d List.mem_cons_self
    rw [List.cons_append, strcspn_cons hd, if_neg hfree,
      ih fun x hx => ha x (List.mem_cons_of_mem d hx), List.length_cons]
    omega

theorem strcspn_eq_zero (ha : Free terms a) : strcspn terms a false n = 0 := by
  induction a generalizing n with
  | nil => rw [strcspn]
  | cons d a ih =>
    obtain ⟨hd, hfree⟩ := ha d List.mem_cons_self
    rw [strcspn_cons hd, if_neg hfree, ih fun x hx => ha x (List.mem_cons_of_mem d hx)]

theorem strsqz_cons (hc : c ≠ '\\') :
    strsqz (c :: s) = if c = ' ' ∨ c = '\t' then strsqz s else c :: strsqz s := by
  rw [strsqz]
  · intro h
    exact absurd h hc
  · intro d u h
    exact absurd h hc

/-- Without blanks and escapes nothing is squeezed out. -/
theorem strsqz_eq_self (hs : ∀ c ∈ s, c ≠ '\\' ∧ c ≠ ' ' ∧ c ≠ '\t') : strsqz s = s := by
  induction s with
  | nil => rfl
  | cons c s ih =>
    obtain ⟨hesc, hspace, htab⟩ := hs c List.mem_cons_self
    rw [strsqz_cons hesc, if_neg (by simp [hspace, htab]),
      ih fun x hx => hs x (List.mem_cons_of_mem c hx)]

theorem length_strsqz_le (s : Str) : (strsqz s).length ≤ s.length := by
  fun_induction strsqz s with
  | case1 => exact le_rfl
  | case2 => exact le_rfl
  | case3 c ptr ih => simpa using ih
  | case4 c ptr hne hne' hblank ih =>
    rw [List.length_cons]
    omega
  | case5 c ptr hne hne' hblank ih => simpa using ih

theorem Plain.visible (h : Plain s) : ∀ c ∈ s, c ≠ '\\' ∧ c ≠ ' ' ∧ c ≠ '\t' := by
  intro c hc
  have hplain := h c hc
  simp only [List.mem_cons, not_or] at hplain
  exact ⟨hplain.2.2.2.2.2.2.1, hplain.2.2.2.2.2.2.2.1, hplain.2.2.2.2.2.2.2.2.1⟩

/-- `strncmp` over the length of the tag only sees whether the tag is a prefix. -/
theorem strncmpEq_tag (rest : List Char) (hs : '=' ∉ t) : strncmpEq (s ++ '=' :: rest) t s.length = true ↔ s <+: t := by
  induction s generalizing t with
  | nil => simp [strncmpEq]
  | cons c s ih =>
    cases t with
    | nil => simp [strncmpEq]
    | cons d t =>
      rw [List.mem_cons, not_or] at hs
      rw [List.cons_append, List.length_cons, strncmpEq, Bool.and_eq_true, decide_eq_true_eq,
        ih hs.2, List.cons_prefix_cons]

/-! ### Options -/

/-- A network option: tag and value. -/
abbrev NetOption := Str × Str

def NetOption.text (o : NetOption) : Str := o.1 ++ '=' :: o.2

/-- The network options as a string. -/
def optionString : List NetOption → Str
  | [] => []
  | [o] => o.text
  | o :: o' :: os => o.text ++ ',' :: optionString (o' :: os)

/-- The tokens of the options, each with its terminator. -/
def optionTokens : List NetOption → Str
  | [] => []
  | [o] => o.text ++ [']']
  | o :: o' :: os => o.text ++ ',' :: optionTokens (o' :: os)

def NetOption.Plain (o : NetOption) : Prop := StringBinding.Plain o.1 ∧ StringBinding.Plain o.2

/-- The tag is not taken for `endpoint`. -/
def NetOption.Distinct (o : NetOption) : Prop := ¬ o.1 <+: endpointTag

variable {o : NetOption} {os : List NetOption} {ep ep' : Option Str} {options options' : Str}

theorem optionTokens_eq (hne : os ≠ []) : optionTokens os = optionString os ++ [']'] := by
  fun_induction optionString os with
  | case1 => exact absurd rfl hne
  | case2 o => rfl
  | case3 o o' os ih =>
    rw [optionTokens, ih (List.cons_ne_nil _ _), List.append_assoc, List.cons_append]

theorem optionString_eq_nil : optionString os = [] ↔ os = [] := by
  constructor
  · intro h
    fun_cases optionString os with
    | case1 => rfl
    | case2 o => simp [optionString, NetOption.text] at h
    | case3 o o' os => simp [optionString] at h
  · rintro rfl
    rfl

/-- The parts of an option are plain, so a terminator that is no `=` or `,` is not in it. -/
theorem free_optionString (hos : ∀ o ∈ os, o.Plain) (heq : '=' ∉ terms) (hcomma : ',' ∉ terms)
    (hterms : ∀ c ∈ terms, c ∈ ['@', ':', '[', ']', ',', '=', '\\', ' ', '\t']) :
    Free terms (optionString os) := by
  have htext : ∀ o : NetOption, o.Plain → Free terms o.text := fun o ho =>
    (ho.1.free hterms).append ((ho.2.free hterms).cons ⟨by decide, heq⟩)
  fun_induction optionString os with
  | case1 => exact fun c hc => absurd hc List.not_mem_nil
  | case2 o => exact htext o (hos o List.mem_cons_self)
  | case3 o o' os ih =>
    exact (htext o (hos o List.mem_cons_self)).append
      ((ih fun x hx => hos x (List.mem_cons_of_mem o hx)).cons ⟨by decide, hcomma⟩)

theorem optionString_visible (hos : ∀ o ∈ os, o.Plain) :
    ∀ c ∈ optionString os, c ≠ '\\' ∧ c ≠ ' ' ∧ c ≠ '\t' := by
  intro c hc
  have hterms : '=' ∉ [' ', '\t'] ∧ ',' ∉ [' ', '\t'] ∧
      ∀ c ∈ [' ', '\t'], c ∈ ['@', ':', '[', ']', ',', '=', '\\', ' ', '\t'] := by simp
  have hfree := free_optionString hos hterms.1 hterms.2.1 hterms.2.2 c hc
  simp only [List.mem_cons, List.not_mem_nil, or_false, not_or] at hfree
  exact hfree

/-! ### Tokens -/

theorem skipBlanks_tag (hs : Plain s) : skipBlanks (s ++ '=' :: rest) n = (s ++ '=' :: rest, n) := by
  cases s with
  | nil => rfl
  | cons c s =>
    obtain ⟨-, hspace, htab⟩ := hs.visible c List.mem_cons_self
    rw [List.cons_append, skipBlanks, if_neg (by simp [hspace, htab])]

/-- The token of an option is seen as one, unless its tag is a prefix of `endpoint`. -/
theorem nextToken_option (ho : o.Plain) :
    nextToken (o.text ++ rest) =
      if o.1 <+: endpointTag then (o.2 ++ rest, true) else (o.text ++ rest, false) := by
  have hfree : Free ['=', ','] o.1 := ho.1.free (by simp)
  have htext : o.text ++ rest = o.1 ++ '=' :: (o.2 ++ rest) := by
    rw [NetOption.text, List.append_assoc, List.cons_append]
  have hcount : strcspn ['=', ','] (o.1 ++ '=' :: (o.2 ++ rest)) false 1 = 1 + o.1.length :=
    strcspn_append hfree (by decide) (by decide)
  have hget : (o.1 ++ '=' :: (o.2 ++ rest))[1 + o.1.length - 1]? = some '=' := by
    rw [Nat.add_sub_cancel_left, List.getElem?_append_right le_rfl, Nat.sub_self]
    rfl
  have hdrop : (o.1 ++ '=' :: (o.2 ++ rest)).drop (1 + o.1.length) = o.2 ++ rest := by
    rw [Nat.add_comm, ← List.drop_drop, List.drop_left]
    rfl
  have hcmp := strncmpEq_tag (s := o.1) (t := endpointTag) (o.2 ++ rest) (by decide)
  rw [htext, nextToken, hcount]
  dsimp only
  rw [if_neg (by rw [hget]; simp), skipBlanks_tag ho.1]
  dsimp only
  rw [Nat.add_sub_cancel_left, hdrop]
  by_cases hprefix : o.1 <+: endpointTag
  · rw [if_pos (hcmp.mpr hprefix), if_pos hprefix]
  · rw [if_neg fun h => hprefix (hcmp.mp h), if_neg hprefix]

/-- What the endpoint branch of the loop does with a plain endpoint. -/
theorem take_endpoint (rest : List Char) (hs : Plain s) (hc : c ∈ [',', ']']) :
    strcspn [',', ']'] (s ++ c :: rest) false 1 = 1 + s.length ∧
      (s ++ c :: rest).drop (1 + s.length) = rest ∧
      ((s ++ c :: rest).take (1 + s.length - 1)).filter (· ≠ '\\') = s := by
  have hesc : c ≠ '\\' := by
    rintro rfl
    exact absurd hc (by decide)
  refine ⟨strcspn_append (hs.free (by simp)) hc hesc, ?_, ?_⟩
  · rw [Nat.add_comm, ← List.drop_drop, List.drop_left]
    rfl
  · rw [Nat.add_sub_cancel_left, List.take_left, List.filter_eq_self]
    exact fun d hd => decide_eq_true (hs.visible d hd).1

theorem tokenLoop_endpoint (hs : Plain s)
    (hrest : (c = ']' ∧ rest = []) ∨ c = ',') :
    tokenLoop (n + 1) (s ++ c :: rest) none options = tokenLoop n rest (some s) options := by
  have hc : c ∈ [',', ']'] := by
    rcases hrest with ⟨rfl, -⟩ | rfl <;> decide
  obtain ⟨hcount, hdrop, hfilter⟩ := take_endpoint rest hs hc
  have hfree : Free ['=', ','] s := hs.free (by simp)
  have htoken : nextToken (s ++ c :: rest) = (s ++ c :: rest, true) := by
    rw [nextToken]
    dsimp only
    refine if_pos ?_
    rcases hrest with ⟨rfl, rfl⟩ | rfl
    · exact Or.inl (strcspn_eq_zero (hfree.append
        (Free.cons ⟨by decide, by decide⟩ fun d hd => absurd hd List.not_mem_nil)))
    · refine Or.inr ?_
      rw [strcspn_append hfree (by decide) (by decide), Nat.add_sub_cancel_left,
        List.getElem?_append_right le_rfl, Nat.sub_self, List.getElem?_cons_zero]
      decide
  rw [tokenLoop, if_neg (by simp), htoken]
  dsimp only
  rw [hcount, if_neg (by simp), hdrop, hfilter]

theorem tokenLoop_option (ho : o.Plain) (hd : o.Distinct) (hc : c ∈ [',', ']']) :
    tokenLoop (n + 1) (o.text ++ c :: rest) ep options =
      tokenLoop n rest ep (options ++ (o.text ++ [c])) := by
  have hesc : c ≠ '\\' := by
    rintro rfl
    exact absurd hc (by decide)
  have hfree : Free [',', ']'] o.text :=
    (ho.1.free (by simp)).append ((ho.2.free (by simp)).cons ⟨by decide, by decide⟩)
  have hcount : strcspn [',', ']'] (o.text ++ c :: rest) false 1 = 1 + o.text.length :=
    strcspn_append hfree hc hesc
  have hdrop : (o.text ++ c :: rest).drop (1 + o.text.length) = rest := by
    rw [Nat.add_comm, ← List.drop_drop, List.drop_left]
    rfl
  have htake : (o.text ++ c :: rest).take (1 + o.text.length) = o.text ++ [c] := by
    rw [Nat.add_comm, List.take_length_add_append]
    rfl
  rw [tokenLoop, if_neg (by simp), nextToken_option ho, if_neg hd]
  dsimp only
  rw [hcount, if_neg (by omega), hdrop, htake]

theorem tokenLoop_mistaken (ho : o.Plain) (hd : o.1 <+: endpointTag) (hc : c ∈ [',', ']']) :
    tokenLoop (n + 1) (o.text ++ c :: rest) ep options =
      if ep = none then tokenLoop n rest (some o.2) options else none := by
  obtain ⟨hcount, hdrop, hfilter⟩ := take_endpoint rest ho.2 hc
  rw [tokenLoop, if_neg (by simp), nextToken_option ho, if_pos hd]
  dsimp only
  rw [hcount, hdrop, hfilter]
  by_cases hep : ep = none
  · rw [if_neg (by simp [hep]), if_pos hep]
  · rw [if_pos (Or.inr hep), if_neg hep]

/-- The loop collects the options as they are. -/
theorem tokenLoop_options (hos : ∀ o ∈ os, o.Plain ∧ o.Distinct) (hn : os.length ≤ n) :
    tokenLoop n (optionTokens os) ep options = some (ep, options ++ optionTokens os) := by
  fun_induction optionTokens os generalizing n options with
  | case1 =>
    rw [List.append_nil]
    cases n with
    | zero => rfl
    | succ n => exact if_pos rfl
  | case2 o =>
    obtain ⟨ho, hd⟩ := hos o List.mem_cons_self
    obtain ⟨n, rfl⟩ : ∃ m, n = m + 1 := ⟨n - 1, by simp at hn; omega⟩
    rw [tokenLoop_option ho hd (by decide)]
    cases n with
    | zero => rfl
    | succ n => exact if_pos rfl
  | case3 o o' os ih =>
    obtain ⟨ho, hd⟩ := hos o List.mem_cons_self
    obtain ⟨n, rfl⟩ : ∃ m, n = m + 1 := ⟨n - 1, by simp at hn; omega⟩
    rw [tokenLoop_option ho hd (by decide), ih (fun x hx => hos x (List.mem_cons_of_mem o hx))
      (by simp at hn ⊢; omega)]
    simp only [List.append_assoc, List.singleton_append]

/-- An option that is taken for an endpoint is missing from the options. -/
theorem tokenLoop_shorter (hos : ∀ o ∈ os, o.Plain) (hn : os.length ≤ n)
    (h : tokenLoop n (optionTokens os) ep options = some (ep', options')) :
    options'.length ≤ options.length + (optionTokens os).length ∧
      ((∃ o ∈ os, ¬ o.Distinct) → options'.length < options.length + (optionTokens os).length) := by
  fun_induction optionTokens os generalizing n ep options with
  | case1 =>
    have hend : tokenLoop n [] ep options = some (ep, options) := by
      cases n with
      | zero => rfl
      | succ n => exact if_pos rfl
    rw [hend] at h
    cases h
    exact ⟨Nat.le_add_right _ _, fun ⟨o, ho, _⟩ => absurd ho List.not_mem_nil⟩
  | case2 o =>
    obtain ⟨n, rfl⟩ : ∃ m, n = m + 1 := ⟨n - 1, by simp at hn; omega⟩
    have hend (ep : Option Str) (options : Str) :
        tokenLoop n [] ep options = some (ep, options) := by
      cases n with
      | zero => rfl
      | succ n => exact if_pos rfl
    by_cases hd : o.Distinct
    · rw [tokenLoop_option (hos o List.mem_cons_self) hd (by decide), hend] at h
      cases h
      rw [List.length_append]
      refine ⟨le_rfl, fun ⟨x, hx, hbad⟩ => ?_⟩
      rw [List.mem_singleton] at hx
      exact absurd (hx ▸ hd) hbad
    · rw [tokenLoop_mistaken (hos o List.mem_cons_self) (not_not.mp hd) (by decide)] at h
      split_ifs at h
      rw [hend] at h
      cases h
      rw [List.length_append, List.length_singleton]
      exact ⟨by omega, fun _ => by omega⟩
  | case3 o o' os ih =>
    obtain ⟨n, rfl⟩ : ∃ m, n = m + 1 := ⟨n - 1, by simp at hn; omega⟩
    have hos' : ∀ x ∈ o' :: os, x.Plain := fun x hx => hos x (List.mem_cons_of_mem o hx)
    have hn' : (o' :: os).length ≤ n := by simp at hn ⊢; omega
    rw [List.length_append, List.length_cons]
    by_cases hd : o.Distinct
    · rw [tokenLoop_option (hos o List.mem_cons_self) hd (by decide)] at h
      obtain ⟨hle, hlt⟩ := ih hos' hn' h
      simp only [List.length_append, List.length_singleton] at hle hlt
      refine ⟨by omega, fun ⟨x, hx, hbad⟩ => ?_⟩
      rw [List.mem_cons] at hx
      cases hx with
      | inl hself => exact absurd (hself ▸ hd) hbad
      | inr htail =>
        have hshort := hlt ⟨x, htail, hbad⟩
        omega
    · rw [tokenLoop_mistaken (hos o List.mem_cons_self) (not_not.mp hd) (by decide)] at h
      split_ifs at h
      obtain ⟨hle, -⟩ := ih hos' hn' h
      exact ⟨by omega, fun _ => by omega⟩

/-! ### The parts before the bracket -/

variable {x : Str} {d : Char}

theorem free_nil : Free terms [] := fun _ hc => absurd hc List.not_mem_nil

/-- Up to and without a delimiter. -/
theorem cut_append (ha : Free [d] a) (hd : d ≠ '\\') :
    strcspn [d] (a ++ d :: x) false 1 = 1 + a.length ∧
      (a ++ d :: x).take (1 + a.length - 1) = a ∧ (a ++ d :: x).drop (1 + a.length) = x := by
  refine ⟨strcspn_append ha List.mem_cons_self hd, ?_, ?_⟩
  · rw [Nat.add_sub_cancel_left, List.take_left]
  · rw [Nat.add_comm, ← List.drop_drop, List.drop_left]
    rfl

/-- A part with its delimiter, or an empty part without it. -/
theorem cut_part {b : Prop} [Decidable b] (hs : Free [d] s) (hx : Free [d] x) (hb : ¬ b → s = [])
    (hd : d ≠ '\\') :
    ((if b then s ++ [d] else []) ++ x).take
        (strcspn [d] ((if b then s ++ [d] else []) ++ x) false 1 - 1) = s ∧
      ((if b then s ++ [d] else []) ++ x).drop
        (strcspn [d] ((if b then s ++ [d] else []) ++ x) false 1) = x := by
  by_cases hdelim : b
  · rw [if_pos hdelim, List.append_assoc, List.singleton_append]
    obtain ⟨hcount, htake, hdrop⟩ := cut_append (x := x) hs hd
    rw [hcount]
    exact ⟨htake, hdrop⟩
  · rw [if_neg hdelim, List.nil_append, strcspn_eq_zero hx, hb hdelim]
    exact ⟨rfl, rfl⟩

variable {uuid protseq netaddr endpoint : Option Str} {opts : Option (List NetOption)}

/-- What stands in the brackets. -/
def bracketed (endpoint : Option Str) (opts : Option (List NetOption)) : Str :=
  endpoint.getD [] ++
    ((if endpoint.isSome ∧ optionString (opts.getD []) ≠ [] then [','] else []) ++
      (optionString (opts.getD []) ++ [']']))

theorem compose_eq : compose uuid protseq netaddr endpoint (opts.map optionString) =
    (if uuid.getD [] ≠ [] then uuid.getD [] ++ ['@'] else []) ++
      ((if protseq.isSome then protseq.getD [] ++ [':'] else []) ++
        (netaddr.getD [] ++
          if endpoint.isSome ∨ opts.isSome then '[' :: bracketed endpoint opts else [])) := by
  have hopts : (opts.map optionString).getD [] = optionString (opts.getD []) := by
    cases opts <;> rfl
  rcases uuid with _ | _ | ⟨c, s⟩ <;> cases protseq <;>
    simp only [compose, hopts, Option.isSome_map, bracketed, Option.getD_none, Option.getD_some,
      Option.isSome_none, Option.isSome_some, ne_eq, not_true_eq_false, reduceCtorEq,
      not_false_eq_true, Bool.false_eq_true, ↓reduceIte, List.append_assoc, List.nil_append,
      List.cons_append]

/-- Every part is plain. -/
structure PlainParts (uuid protseq netaddr endpoint : Option Str)
    (opts : Option (List NetOption)) : Prop where
  uuid : Plain (uuid.getD [])
  protseq : Plain (protseq.getD [])
  netaddr : Plain (netaddr.getD [])
  endpoint : Plain (endpoint.getD [])
  opts : ∀ o ∈ opts.getD [], o.Plain

theorem PlainParts.free_bracketed (h : PlainParts uuid protseq netaddr endpoint opts)
    (hd : d ∈ ['@', ':', '[']) : Free [d] (bracketed endpoint opts) := by
  have hall : ∀ c ∈ [d], c ∈ ['@', ':', '[', ']', ',', '=', '\\', ' ', '\t'] := by
    intro c hc
    rw [List.mem_singleton] at hc
    subst hc
    simp only [List.mem_cons, List.not_mem_nil, or_false] at hd ⊢
    tauto
  have hother : '=' ∉ [d] ∧ ',' ∉ [d] ∧ ']' ∉ [d] := by
    simp only [List.mem_cons, List.not_mem_nil, or_false] at hd ⊢
    rcases hd with rfl | rfl | rfl <;> decide
  refine (h.endpoint.free hall).append (Free.append ?_ (Free.append ?_ ?_))
  · split_ifs
    · exact Free.cons ⟨by decide, hother.2.1⟩ free_nil
    · exact free_nil
  · exact free_optionString h.opts hother.1 hother.2.1 hall
  · exact Free.cons ⟨by decide, hother.2.2⟩ free_nil

/-- The parser finds the parts before the bracket and goes through what stands in it. -/
theorem parse_compose (h : PlainParts uuid protseq netaddr endpoint opts) :
    parse (compose uuid protseq netaddr endpoint (opts.map optionString)) =
      if endpoint.isSome ∨ opts.isSome then
        (tokenLoop (bracketed endpoint opts).length (bracketed endpoint opts) none []).map fun r =>
          { uuid := uuid.getD [], protseq := protseq.getD [], netaddr := netaddr.getD []
            endpoint := strsqz (r.1.getD []), networkOptions := (strsqz r.2).dropLast }
      else
        some { uuid := uuid.getD [], protseq := protseq.getD [], netaddr := netaddr.getD []
               endpoint := [], networkOptions := [] } := by
  have hbracket : ∀ d ∈ ['@', ':'], Free [d]
      (if endpoint.isSome ∨ opts.isSome then '[' :: bracketed endpoint opts else []) := by
    intro d hd
    split_ifs
    · refine Free.cons ?_ (h.free_bracketed (by simp at hd ⊢; tauto))
      rcases List.mem_cons.mp hd with rfl | hd
      · decide
      · rw [List.mem_singleton] at hd
        subst hd
        decide
    · exact free_nil
  have hnetaddr : ∀ d ∈ ['@', ':'], Free [d] (netaddr.getD [] ++
      if endpoint.isSome ∨ opts.isSome then '[' :: bracketed endpoint opts else []) := by
    intro d hd
    refine (h.netaddr.free ?_).append (hbracket d hd)
    intro c hc
    rw [List.mem_singleton] at hc
    subst hc
    simp at hd ⊢
    tauto
  have hprotseq : Free ['@'] ((if protseq.isSome then protseq.getD [] ++ [':'] else []) ++
      (netaddr.getD [] ++
        if endpoint.isSome ∨ opts.isSome then '[' :: bracketed endpoint opts else [])) := by
    refine Free.append ?_ (hnetaddr '@' (by simp))
    split_ifs
    · exact (h.protseq.free (by simp)).append (Free.cons ⟨by decide, by decide⟩ free_nil)
    · exact free_nil
  obtain ⟨huuidTake, huuidDrop⟩ := cut_part (b := uuid.getD [] ≠ []) (d := '@')
    (h.uuid.free (by simp)) hprotseq (fun hnil => not_not.mp hnil) (by decide)
  obtain ⟨hprotTake, hprotDrop⟩ := cut_part (b := (protseq.isSome : Prop)) (d := ':')
    (h.protseq.free (by simp)) (hnetaddr ':' (by simp))
    (fun hnone => by cases protseq with
      | none => rfl
      | some s => exact absurd rfl hnone) (by decide)
  rw [compose_eq]
  simp only [parse, huuidTake, huuidDrop, hprotTake, hprotDrop,
    strsqz_eq_self h.uuid.visible, strsqz_eq_self h.protseq.visible]
  by_cases hopen : endpoint.isSome ∨ opts.isSome
  · obtain ⟨hcount, htake, hdrop⟩ := cut_append (d := '[') (x := bracketed endpoint opts)
      (h.netaddr.free (by simp)) (by decide)
    simp only [if_pos hopen]
    rw [hcount, if_neg (by omega), htake, hdrop, strsqz_eq_self h.netaddr.visible]
    cases tokenLoop (bracketed endpoint opts).length (bracketed endpoint opts) none [] <;> rfl
  · simp only [if_neg hopen, List.append_nil]
    rw [strcspn_eq_zero (h.netaddr.free (by simp)), if_pos rfl,
      strsqz_eq_self h.netaddr.visible]

/-! ### The round trip -/

theorem length_le_optionTokens (os : List NetOption) : os.length ≤ (optionTokens os).length := by
  fun_induction optionTokens os with
  | case1 => exact le_rfl
  | case2 o => simp
  | case3 o o' os ih =>
    simp only [List.length_append, List.length_cons] at ih ⊢
    omega

/-- The loop over the brackets: the endpoint is taken first, if there is one. -/
theorem tokenLoop_bracketed (h : PlainParts uuid protseq netaddr endpoint opts) :
    ∃ n, (opts.getD []).length ≤ n ∧
      tokenLoop (bracketed endpoint opts).length (bracketed endpoint opts) none [] =
        tokenLoop n (optionTokens (opts.getD []))
          (if opts.getD [] = [] then some (endpoint.getD []) else endpoint) [] := by
  have hlen := length_le_optionTokens (opts.getD [])
  by_cases hnil : opts.getD [] = []
  · -- only the endpoint
    have htext : bracketed endpoint opts = endpoint.getD [] ++ ']' :: [] := by
      rw [bracketed, hnil]
      simp [optionString]
    refine ⟨(endpoint.getD []).length, by rw [hnil]; exact Nat.zero_le _, ?_⟩
    rw [htext, List.length_append, List.length_singleton,
      tokenLoop_endpoint h.endpoint (Or.inl ⟨rfl, rfl⟩), if_pos hnil, hnil]
    rfl
  · have hstring : optionString (opts.getD []) ≠ [] := fun h => hnil (optionString_eq_nil.mp h)
    rw [if_neg hnil]
    cases endpoint with
    | none =>
      have htext : bracketed none opts = optionTokens (opts.getD []) := by
        rw [optionTokens_eq hnil, bracketed]
        rfl
      exact ⟨_, htext ▸ hlen, by rw [htext]⟩
    | some e =>
      have htext : bracketed (some e) opts = e ++ ',' :: optionTokens (opts.getD []) := by
        rw [optionTokens_eq hnil, bracketed, if_pos ⟨rfl, hstring⟩]
        rfl
      refine ⟨e.length + (optionTokens (opts.getD [])).length, by omega, ?_⟩
      rw [htext, List.length_append, List.length_cons, ← Nat.add_assoc]
      exact tokenLoop_endpoint h.endpoint (Or.inr rfl)

/-- **String bindings.**  Parsing a composed string binding gives the parts it was composed
from if and only if no tag of an option is a prefix of `endpoint`. -/
theorem parse_compose_iff (h : PlainParts uuid protseq netaddr endpoint opts) :
    parse (compose uuid protseq netaddr endpoint (opts.map optionString)) =
        some { uuid := uuid.getD [], protseq := protseq.getD [], netaddr := netaddr.getD []
               endpoint := endpoint.getD [], networkOptions := optionString (opts.getD []) } ↔
      ∀ o ∈ opts.getD [], ¬ o.1 <+: endpointTag := by
  rw [parse_compose h]
  by_cases hopen : endpoint.isSome ∨ opts.isSome
  · obtain ⟨n, hn, hloop⟩ := tokenLoop_bracketed h
    rw [if_pos hopen, hloop]
    constructor
    · intro hparse
      by_contra hbad
      push Not at hbad
      obtain ⟨r, hr, hparsed⟩ := Option.map_eq_some_iff.mp hparse
      obtain ⟨o, ho, hprefix⟩ := hbad
      have hne : opts.getD [] ≠ [] := List.ne_nil_of_mem ho
      have hshort := (tokenLoop_shorter h.opts hn hr).2 ⟨o, ho, not_not.mpr hprefix⟩
      rw [optionTokens_eq hne, List.length_append, List.length_singleton] at hshort
      have hsame := congrArg (fun q => q.networkOptions.length) hparsed
      dsimp only at hsame
      rw [List.length_dropLast] at hsame
      have hsqz := length_strsqz_le r.2
      have hpos : 0 < (optionString (opts.getD [])).length :=
        List.length_pos_iff.mpr fun h => hne (optionString_eq_nil.mp h)
      simp only [List.length_nil] at hshort
      omega
    · intro hdistinct
      rw [tokenLoop_options (fun o ho => ⟨h.opts o ho, hdistinct o ho⟩) hn, Option.map_some,
        List.nil_append]
      have hend : strsqz ((if opts.getD [] = [] then some (endpoint.getD []) else endpoint).getD [])
          = endpoint.getD [] := by
        split_ifs
        · exact strsqz_eq_self h.endpoint.visible
        · exact strsqz_eq_self h.endpoint.visible
      have hoptions : (strsqz (optionTokens (opts.getD []))).dropLast
          = optionString (opts.getD []) := by
        by_cases hnil : opts.getD [] = []
        · rw [hnil]
          rfl
        · have hvisible : ∀ c ∈ optionString (opts.getD []) ++ [']'],
              c ≠ '\\' ∧ c ≠ ' ' ∧ c ≠ '\t' := by
            intro c hc
            rw [List.mem_append, List.mem_singleton] at hc
            cases hc with
            | inl hmem => exact optionString_visible h.opts c hmem
            | inr hlast =>
              subst hlast
              decide
          rw [optionTokens_eq hnil, strsqz_eq_self hvisible, List.dropLast_concat]
      rw [hend, hoptions]
  · rw [if_neg hopen]
    rw [not_or, Bool.not_eq_true, Bool.not_eq_true, Option.isSome_eq_false_iff,
      Option.isSome_eq_false_iff, Option.isNone_iff_eq_none, Option.isNone_iff_eq_none] at hopen
    rw [hopen.1, hopen.2]
    simp [optionString]

theorem parse_compose_iff_timeout :
    parse (compose none (some ['n', 'p']) (some ['h']) (some ['1'])
        ((some [(['t', 'o'], ['9'])]).map optionString)) =
      some { uuid := [], protseq := ['n', 'p'], netaddr := ['h'], endpoint := ['1']
             networkOptions := ['t', 'o', '=', '9'] } :=
  (parse_compose_iff ⟨by simp [Plain], by simp [Plain], by simp [Plain], by simp [Plain],
    fun o ho => by
      rw [Option.getD_some, List.mem_singleton] at ho
      subst ho
      exact ⟨by simp [Plain], by simp [Plain]⟩⟩).mpr (by decide)

/-- With an option `end=9` the string binding is refused: its tag passes for `endpoint`, and
there is an endpoint already. -/
theorem parse_refuses_composed :
    parse (compose (some []) (some ['n', 'p']) (some ['h']) (some ['1'])
      ((some [(['e', 'n', 'd'], ['9'])]).map optionString)) = none := by
  decide

end StringBinding
