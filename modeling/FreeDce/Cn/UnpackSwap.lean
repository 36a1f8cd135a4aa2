/-
The header of a packet in the other byte order (`rpc__cn_unpack_hdr` in cnpkt.c, the structures of
cnpkt.h).

A packet that comes from a machine with the other order of bytes has every number of its header the
other way round.  The numbers are swapped in place, one after the other; where the next ones are is
found from counts that are bytes, and from a length that has been swapped by then.

* `contextList_foreign`, `resultList_foreign`, `typePart_foreign` — the lists, and the part that
  belongs to the type;
* `unpackHdr_foreign` — the header is as this machine would have sent it, but for the byte that says
  which order it was sent in; `not_transparent` is a packet whose trailer is not.
-/
import FreeDce.Cn.Receive
import FreeDce.Lib.ByteSwap

namespace Cn

namespace UnpackSwap

open ByteSwap

/-! ### The structures of a packet -/

def inq16 (rep : IntRep) (m : Mem) (off : ℕ) : ℕ :=
  match rep with
  | .bigEndian => 256 * (m off).toNat + (m (off + 1)).toNat
  | .littleEndian => (m off).toNat + 256 * (m (off + 1)).toNat

def ptype (m : Mem) : ℕ := (m 2).toNat
def hasUuid (m : Mem) : Bool := 128 ≤ (m 3).toNat

/-- `rpc_cn_common_hdr_t`. -/
def commonFields : List Field := [⟨8, 2⟩, ⟨10, 2⟩, ⟨12, 4⟩]

/-- `max_xmit_frag`, `max_recv_frag` and `assoc_group_id`. -/
def bindFields : List Field := [⟨16, 2⟩, ⟨18, 2⟩, ⟨20, 4⟩]

/-- `uuid_t`: the node and the clock are bytes. -/
def uuidFields (off : ℕ) : List Field := [⟨off, 4⟩, ⟨off + 4, 2⟩, ⟨off + 6, 2⟩]

/-- `rpc_cn_pres_syntax_id_t`. -/
def syntaxFields (off : ℕ) : List Field := uuidFields off ++ [⟨off + 16, 4⟩]

/-- So many syntaxes, one behind the other. -/
def syntaxesFields : ℕ → ℕ → List Field
  | 0, _ => []
  | n + 1, off => syntaxFields off ++ syntaxesFields n (off + 20)

/-- `rpc_cn_pres_cont_elem_t`: the abstract syntax and the transfer syntaxes. -/
def contextFields (ep tsn : ℕ) : List Field := ⟨ep, 2⟩ :: syntaxesFields (tsn + 1) (ep + 4)

/-- Where the next element begins. -/
def nextContext (ep tsn : ℕ) : ℕ := ep + 24 + 20 * tsn

/-- The elements of `rpc_cn_pres_cont_list_t`. -/
def contextListFields (m : Mem) : ℕ → ℕ → List Field
  | 0, _ => []
  | n + 1, ep =>
    let tsn := (m (ep + 2)).toNat
    contextFields ep tsn ++ contextListFields m n (nextContext ep tsn)

def contextListEnd (m : Mem) : ℕ → ℕ → ℕ
  | 0, ep => ep
  | n + 1, ep => contextListEnd m n (nextContext ep (m (ep + 2)).toNat)

/-- `rpc_cn_pres_result_t`. -/
def resultFields (off : ℕ) : List Field := ⟨off, 2⟩ :: ⟨off + 2, 2⟩ :: syntaxFields (off + 4)

/-- The elements of `rpc_cn_pres_result_list_t`. -/
def resultListFields : ℕ → ℕ → List Field
  | 0, _ => []
  | n + 1, off => resultFields off ++ resultListFields n (off + 24)

def forceAlignment4 (off : ℕ) : ℕ := (off + 3) / 4 * 4

/-- Where the list of the results begins: behind the secondary address. -/
def resultListOff (rep : IntRep) (m : Mem) : ℕ := forceAlignment4 (26 + inq16 rep m 24)

/-- The numbers of the header that belong to the type; padding must be zero and is none. -/
def typeFields (rep : IntRep) (m : Mem) : List Field :=
  match ptype m with
  | 11 | 14 => bindFields ++ contextListFields m (m 24).toNat 28
  | 12 | 15 =>
    let presp := resultListOff rep m
    bindFields ++ (⟨24, 2⟩ :: resultListFields (m presp).toNat (presp + 4))
  | 13 => [⟨16, 2⟩]
  | 0 => [⟨16, 4⟩, ⟨20, 2⟩, ⟨22, 2⟩] ++ if hasUuid m then uuidFields 24 else []
  | 2 => [⟨16, 4⟩, ⟨20, 2⟩]
  | 3 => [⟨16, 4⟩, ⟨20, 2⟩, ⟨24, 4⟩]
  | _ => []

/-- Where the numbers of the header end. -/
def typeEnd (rep : IntRep) (m : Mem) : ℕ :=
  match ptype m with
  | 11 | 14 => contextListEnd m (m 24).toNat 28
  | 12 | 15 => resultListOff rep m + 4 + 24 * (m (resultListOff rep m)).toNat
  | 13 => 18
  | 0 => if hasUuid m then 40 else 24
  | 2 => 22
  | 3 => 28
  | _ => 16

/-- `RPC_CN_PKT_AUTH_TLR`. -/
def authTlrOff (rep : IntRep) (m : Mem) : ℕ := inq16 rep m 8 - (inq16 rep m 10 + 8)

/-- `key_id` of the authentication trailer, if there is one. -/
def tlrFields (rep : IntRep) (m : Mem) : List Field :=
  if inq16 rep m 10 ≠ 0 then [⟨authTlrOff rep m + 4, 4⟩] else []

def IntRep.other : IntRep → IntRep
  | .bigEndian => .littleEndian
  | .littleEndian => .bigEndian

/-- The data representation of the other machines. -/
def setDrep (rep : IntRep) (m : Mem) : Mem :=
  Function.update m 4 (UInt8.ofNat (16 * (IntRep.other rep).code))

/-- The packet as a machine with the other order sends it. -/
def foreign (rep : IntRep) (m : Mem) : Mem :=
  revAll (commonFields ++ (typeFields rep m ++ tlrFields rep m)) (setDrep rep m)

/-- A packet of this machine: in ASCII, of a type that there is, with the trailer at its end and
behind the header. -/
structure WellFormed (rep : IntRep) (m : Mem) : Prop where
  drep : (m 4).toNat = 16 * rep.code
  ptype : ptype m ∈ [0, 2, 3, 11, 12, 13, 14, 15, 16, 17, 18, 19]
  tlr : inq16 rep m 10 ≠ 0 → typeEnd rep m ≤ authTlrOff rep m

/-! ### rpc__cn_unpack_hdr -/

/-- `unpack_pres_context_list` from an element on. -/
def unpackPresContextList (swap : Bool) : ℕ → ℕ → Mem → Mem
  | 0, _, m => m
  | n + 1, ep, m =>
    let tsn := (m (ep + 2)).toNat
    unpackPresContextList swap n (nextContext ep tsn)
      (if swap then revAll (contextFields ep tsn) m else m)

/-- `unpack_pres_result_list`. -/
def unpackPresResultList (swap : Bool) (presp : ℕ) (m : Mem) : Mem :=
  if swap then revAll (resultListFields (m presp).toNat (presp + 4)) m else m

/-- The part that belongs to the type. -/
def unpackType (rep : IntRep) (swap : Bool) (m : Mem) : Mem :=
  match ptype m with
  | 11 | 14 =>
    let m := if swap then revAll bindFields m else m
    unpackPresContextList swap (m 24).toNat 28 m
  | 12 | 15 =>
    let m := if swap then revAll bindFields m else m
    -- `unpack_port_any`
    let m := if swap then rev ⟨24, 2⟩ m else m
    unpackPresResultList swap (resultListOff rep m) m
  | 13 => if swap then rev ⟨16, 2⟩ m else m
  | 0 =>
    if swap then
      let m := revAll [⟨16, 4⟩, ⟨20, 2⟩, ⟨22, 2⟩] m
      if hasUuid m then revAll (uuidFields 24) m else m
    else m
  | 2 => if swap then revAll [⟨16, 4⟩, ⟨20, 2⟩] m else m
  | 3 => if swap then revAll [⟨16, 4⟩, ⟨20, 2⟩, ⟨24, 4⟩] m else m
  | _ => m

/-- The `tlr_unpack` of each of the protocols. -/
def tlrUnpack (m : Mem) : Mem := m

/-- `rpc__cn_unpack_hdr`, for packets in ASCII. -/
def unpackHdr (rep : IntRep) (m : Mem) : Mem :=
  let swap : Bool := (m 4).toNat / 16 ≠ rep.code
  let m := if swap then revAll commonFields m else m
  let authenticate : Bool := inq16 rep m 10 ≠ 0
  let m := unpackType rep swap m
  if authenticate && swap && ptype m ∈ [11, 12, 13, 14, 15] then tlrUnpack m else m

variable {rep : IntRep} {m x : Mem} {n ep off c i : ℕ} {gs : List Field}

/-! ### Where the numbers are -/

theorem ordered_syntaxFields (off : ℕ) : Ordered off (syntaxFields off) (off + 20) :=
  ⟨Nat.le_refl _, Nat.le_refl _, Nat.le_refl _, Nat.le_add_right (off + 8) 8, Nat.le_refl _⟩

theorem ordered_syntaxesFields (n off : ℕ) :
    Ordered off (syntaxesFields n off) (off + 20 * n) := by
  induction n generalizing off with
  | zero => exact Nat.le_refl off
  | succ n ih =>
    rw [show off + 20 * (n + 1) = off + 20 + 20 * n by ring]
    exact (ordered_syntaxFields off).append (ih (off + 20))

theorem ordered_contextFields (ep tsn : ℕ) :
    Ordered ep (contextFields ep tsn) (nextContext ep tsn) := by
  have h := ordered_syntaxesFields (tsn + 1) (ep + 4)
  have hend : nextContext ep tsn = ep + 4 + 20 * (tsn + 1) := by
    rw [nextContext]
    ring
  rw [hend]
  have hfirst : Ordered ep [⟨ep, 2⟩] (ep + 4) := ⟨Nat.le_refl _, Nat.le_add_right _ 2⟩
  exact hfirst.append h

theorem ordered_contextListFields (m : Mem) (n ep : ℕ) :
    Ordered ep (contextListFields m n ep) (contextListEnd m n ep) := by
  induction n generalizing ep with
  | zero => exact Nat.le_refl ep
  | succ n ih => exact (ordered_contextFields ep _).append (ih _)

theorem ordered_resultListFields (n off : ℕ) :
    Ordered off (resultListFields n off) (off + 24 * n) := by
  induction n generalizing off with
  | zero => exact Nat.le_refl off
  | succ n ih =>
    rw [show off + 24 * (n + 1) = off + 24 + 24 * n by ring]
    have hone : Ordered off (resultFields off) (off + 24) :=
      ⟨Nat.le_refl _, Nat.le_refl _, ordered_syntaxFields (off + 4)⟩
    exact hone.append (ih (off + 24))

theorem ordered_commonFields : Ordered 8 commonFields 16 :=
  ⟨Nat.le_refl 8, Nat.le_refl 10, Nat.le_refl 12, Nat.le_refl 16⟩

theorem ordered_bindFields : Ordered 16 bindFields 24 :=
  ⟨Nat.le_refl 16, Nat.le_refl 18, Nat.le_refl 20, Nat.le_refl 24⟩

theorem le_forceAlignment4 (off : ℕ) : off ≤ forceAlignment4 off := by
  rw [forceAlignment4]
  omega

/-- The length of the secondary address, and the results. -/
theorem ordered_ackFields (rep : IntRep) (m : Mem) :
    Ordered 24 (⟨24, 2⟩ :: resultListFields (m (resultListOff rep m)).toNat (resultListOff rep m + 4))
      (resultListOff rep m + 4 + 24 * (m (resultListOff rep m)).toNat) := by
  have hle : 26 ≤ resultListOff rep m + 4 :=
    (Nat.le_add_right 26 _).trans ((le_forceAlignment4 _).trans (Nat.le_add_right _ _))
  have hone : Ordered 24 [⟨24, 2⟩] (resultListOff rep m + 4) := ⟨Nat.le_refl _, hle⟩
  exact hone.append (ordered_resultListFields _ _)

/-! ### The lists -/

/-- The contexts are swapped back one after the other; their counts are where they were. -/
theorem contextList_foreign (hx : ∀ i, ep ≤ i → x i = m i)
    (hgs : Ordered (contextListEnd m n ep) gs c) :
    unpackPresContextList true n ep (revAll (contextListFields m n ep ++ gs) x) = revAll gs x := by
  induction n generalizing ep with
  | zero => rfl
  | succ n ih =>
    have hcontext := ordered_contextFields ep (m (ep + 2)).toNat
    have hrest := (ordered_contextListFields m n (nextContext ep (m (ep + 2)).toNat)).append hgs
    have hnext : ep + 24 ≤ nextContext ep (m (ep + 2)).toNat := Nat.le_add_right _ _
    have hcount : revAll (contextListFields m (n + 1) ep ++ gs) x (ep + 2) = m (ep + 2) := by
      rw [contextListFields, List.append_assoc, revAll_append,
        revAll_of_not_mem hrest (.inl (by omega)), contextFields, revAll_cons,
        revAll_of_not_mem (ordered_syntaxesFields _ _) (.inl (by omega)),
        rev_of_not_mem (.inr (Nat.le_refl _))]
      exact hx _ (Nat.le_add_right _ _)
    rw [unpackPresContextList, hcount, if_pos rfl, contextListFields, List.append_assoc, revAll_peel hcontext hrest]
    exact ih (fun i hi => hx i (by omega)) hgs

theorem resultList_foreign (hx : ∀ i, 16 ≤ i → x i = m i)
    (hgs : Ordered (resultListOff rep m + 4 + 24 * (m (resultListOff rep m)).toNat) gs c) :
    unpackPresResultList true (resultListOff rep m)
      (revAll (resultListFields (m (resultListOff rep m)).toNat (resultListOff rep m + 4) ++ gs) x) =
      revAll gs x := by
  have hlist := ordered_resultListFields (m (resultListOff rep m)).toNat (resultListOff rep m + 4)
  have hoff : 26 ≤ resultListOff rep m := (Nat.le_add_right 26 _).trans (le_forceAlignment4 _)
  have hcount : revAll (resultListFields (m (resultListOff rep m)).toNat (resultListOff rep m + 4)
      ++ gs) x (resultListOff rep m) = m (resultListOff rep m) := by
    rw [revAll_of_not_mem (hlist.append hgs) (.inl (by omega))]
    exact hx _ (by omega)
  rw [unpackPresResultList, if_pos rfl, hcount]
  exact revAll_peel hlist hgs

/-! ### The part that belongs to the type -/

theorem inq16_congr (h : x off = m off) (h' : x (off + 1) = m (off + 1)) :
    inq16 rep x off = inq16 rep m off := by
  cases rep <;> rw [inq16, inq16, h, h']

section Parts

variable (hx : ∀ i, i ≠ 4 → x i = m i)

include hx

theorem bind_foreign (htype : ptype m = 11 ∨ ptype m = 14) (hgs : Ordered (typeEnd rep m) gs c)
    (hptype : ptype (revAll (typeFields rep m ++ gs) x) = ptype m) :
    unpackType rep true (revAll (typeFields rep m ++ gs) x) = revAll gs x := by
  have hfields : typeFields rep m = bindFields ++ contextListFields m (m 24).toNat 28 := by
    rcases htype with h | h <;> rw [typeFields, h] <;> rfl
  have hend : typeEnd rep m = contextListEnd m (m 24).toNat 28 := by
    rcases htype with h | h <;> rw [typeEnd, h] <;> rfl
  rw [hend] at hgs
  have hlist : Ordered 24 (contextListFields m (m 24).toNat 28 ++ gs) c := by
    have h := (ordered_contextListFields m (m 24).toNat 28).append hgs
    have hpad : Ordered 24 [] 28 := Nat.le_add_right 24 4
    exact hpad.append h
  have hcount : revAll (contextListFields m (m 24).toNat 28 ++ gs) x 24 = m 24 := by
    have h := (ordered_contextListFields m (m 24).toNat 28).append hgs
    rw [revAll_of_not_mem h (.inl (by decide))]
    exact hx 24 (by decide)
  have hbind : revAll bindFields (revAll (typeFields rep m ++ gs) x) =
      revAll (contextListFields m (m 24).toNat 28 ++ gs) x := by
    rw [hfields, List.append_assoc]
    exact revAll_peel ordered_bindFields hlist
  have hunpack : unpackType rep true (revAll (typeFields rep m ++ gs) x) =
      unpackPresContextList true (revAll bindFields (revAll (typeFields rep m ++ gs) x) 24).toNat 28
        (revAll bindFields (revAll (typeFields rep m ++ gs) x)) := by
    rcases htype with h | h <;> rw [unpackType, hptype, h] <;> rfl
  rw [hunpack, hbind, hcount]
  exact contextList_foreign (fun i hi => hx i (by omega)) hgs

theorem ack_foreign (htype : ptype m = 12 ∨ ptype m = 15) (hgs : Ordered (typeEnd rep m) gs c)
    (hptype : ptype (revAll (typeFields rep m ++ gs) x) = ptype m) :
    unpackType rep true (revAll (typeFields rep m ++ gs) x) = revAll gs x := by
  have hfields : typeFields rep m = bindFields ++ (⟨24, 2⟩ ::
      resultListFields (m (resultListOff rep m)).toNat (resultListOff rep m + 4)) := by
    rcases htype with h | h <;> rw [typeFields, h] <;> rfl
  have hend : typeEnd rep m = resultListOff rep m + 4 + 24 * (m (resultListOff rep m)).toNat := by
    rcases htype with h | h <;> rw [typeEnd, h] <;> rfl
  rw [hend] at hgs
  have hlist := (ordered_resultListFields (m (resultListOff rep m)).toNat
    (resultListOff rep m + 4)).append hgs
  have hoff : 26 ≤ resultListOff rep m := (Nat.le_add_right 26 _).trans (le_forceAlignment4 _)
  have hlen : Ordered 24 [⟨24, 2⟩] (resultListOff rep m + 4) :=
    ⟨Nat.le_refl _, hoff.trans (Nat.le_add_right _ _)⟩
  -- the length of the address is swapped, then the results are found
  have hport : rev ⟨24, 2⟩ (revAll bindFields (revAll (typeFields rep m ++ gs) x)) =
      revAll (resultListFields (m (resultListOff rep m)).toNat (resultListOff rep m + 4) ++ gs) x := by
    have hmid : Ordered 24 (⟨24, 2⟩ :: (resultListFields (m (resultListOff rep m)).toNat
        (resultListOff rep m + 4) ++ gs)) c := hlen.append hlist
    rw [hfields, List.append_assoc, List.cons_append, revAll_peel ordered_bindFields hmid]
    exact revAll_peel hlen hlist
  have hbytes : ∀ i, 16 ≤ i → i < 26 → revAll (resultListFields (m (resultListOff rep m)).toNat
      (resultListOff rep m + 4) ++ gs) x i = m i := by
    intro i hi hi'
    rw [revAll_of_not_mem hlist (.inl (by omega))]
    exact hx i (by omega)
  have hsame : resultListOff rep (revAll (resultListFields (m (resultListOff rep m)).toNat
      (resultListOff rep m + 4) ++ gs) x) = resultListOff rep m := by
    exact congrArg (fun len => forceAlignment4 (26 + len))
      (inq16_congr (hbytes 24 (by decide) (by decide)) (hbytes 25 (by decide) (by decide)))
  have hunpack : unpackType rep true (revAll (typeFields rep m ++ gs) x) =
      unpackPresResultList true
        (resultListOff rep (rev ⟨24, 2⟩ (revAll bindFields (revAll (typeFields rep m ++ gs) x))))
        (rev ⟨24, 2⟩ (revAll bindFields (revAll (typeFields rep m ++ gs) x))) := by
    rcases htype with h | h <;> rw [unpackType, hptype, h] <;> rfl
  rw [hunpack, hport, hsame]
  exact resultList_foreign (fun i hi => hx i (by omega)) hgs

/-- The types without lists: their numbers are swapped back at once. -/
theorem flat_foreign (hordered : Ordered 16 (typeFields rep m) (typeEnd rep m))
    (hgs : Ordered (typeEnd rep m) gs c)
    (hunpack : ∀ y, ptype y = ptype m → hasUuid y = hasUuid m →
      unpackType rep true y = revAll (typeFields rep m) y) :
    unpackType rep true (revAll (typeFields rep m ++ gs) x) = revAll gs x := by
  have hbytes : ∀ i, i < 4 → revAll (typeFields rep m ++ gs) x i = m i := by
    intro i hi
    rw [revAll_of_not_mem (hordered.append hgs) (.inl (by omega))]
    exact hx i (by omega)
  rw [hunpack _ (congrArg UInt8.toNat (hbytes 2 (by decide)))
    (congrArg (fun b : UInt8 => decide (128 ≤ b.toNat)) (hbytes 3 (by decide)))]
  exact revAll_peel hordered hgs

end Parts

theorem ordered_typeFields (rep : IntRep) (m : Mem) :
    Ordered 16 (typeFields rep m) (typeEnd rep m) := by
  have hnone : Ordered 16 [] 16 := Nat.le_refl 16
  rw [typeFields, typeEnd]
  split
  · have hpad : Ordered 24 [] 28 := Nat.le_add_right 24 4
    exact ordered_bindFields.append (hpad.append (ordered_contextListFields m _ 28))
  · have hpad : Ordered 24 [] 28 := Nat.le_add_right 24 4
    exact ordered_bindFields.append (hpad.append (ordered_contextListFields m _ 28))
  · exact ordered_bindFields.append (ordered_ackFields rep m)
  · exact ordered_bindFields.append (ordered_ackFields rep m)
  · exact ⟨Nat.le_refl 16, Nat.le_refl 18⟩
  · have hrequest : Ordered 16 [⟨16, 4⟩, ⟨20, 2⟩, ⟨22, 2⟩] 24 :=
      ⟨Nat.le_refl 16, Nat.le_refl 20, Nat.le_refl 22, Nat.le_refl 24⟩
    refine hrequest.append ?_
    split
    · exact ⟨Nat.le_refl 24, Nat.le_refl 28, Nat.le_refl 30, Nat.le_add_right 32 8⟩
    · exact Nat.le_refl 24
  · exact ⟨Nat.le_refl 16, Nat.le_refl 20, Nat.le_refl 22⟩
  · exact ⟨Nat.le_refl 16, Nat.le_refl 20, Nat.le_add_right 22 2, Nat.le_refl 28⟩
  · exact hnone

theorem typePart_foreign (hptype : ptype m ∈ [0, 2, 3, 11, 12, 13, 14, 15, 16, 17, 18, 19])
    (hx : ∀ i, i ≠ 4 → x i = m i) (hgs : Ordered (typeEnd rep m) gs c) :
    unpackType rep true (revAll (typeFields rep m ++ gs) x) = revAll gs x := by
  have hordered := ordered_typeFields rep m
  have hsame : ptype (revAll (typeFields rep m ++ gs) x) = ptype m := by
    rw [ptype, revAll_of_not_mem (hordered.append hgs) (.inl (by decide)), hx 2 (by decide), ptype]
  by_cases hbind : ptype m = 11 ∨ ptype m = 14
  · exact bind_foreign hx hbind hgs hsame
  by_cases hack : ptype m = 12 ∨ ptype m = 15
  · exact ack_foreign hx hack hgs hsame
  refine flat_foreign hx hordered hgs fun y hy huuid => ?_
  obtain ⟨h11, h14⟩ := not_or.mp hbind
  obtain ⟨h12, h15⟩ := not_or.mp hack
  simp only [List.mem_cons, List.not_mem_nil, or_false, h11, h12, h14, h15, false_or] at hptype
  rcases hptype with h | h | h | h | h | h | h | h
  · -- a request
    rw [unpackType, hy, typeFields, h]
    show (if hasUuid (revAll _ y) then _ else _) = _
    have hflags : hasUuid (revAll [⟨16, 4⟩, ⟨20, 2⟩, ⟨22, 2⟩] y) = hasUuid m := huuid
    rw [hflags]
    by_cases hu : hasUuid m = true
    · rw [if_pos hu]
      show _ = revAll (_ ++ if hasUuid m = true then _ else _) y
      rw [if_pos hu, revAll_append]
    · rw [if_neg hu]
      show _ = revAll (_ ++ if hasUuid m = true then _ else _) y
      rw [if_neg hu, List.append_nil]
  all_goals
    rw [unpackType, hy, typeFields, h]
    rfl

/-! ### The whole header -/

theorem ordered_tlrFields (h : WellFormed rep m) :
    ∃ c, Ordered (typeEnd rep m) (tlrFields rep m) c := by
  rw [tlrFields]
  by_cases htlr : inq16 rep m 10 ≠ 0
  · rw [if_pos htlr]
    exact ⟨_, (h.tlr htlr).trans (Nat.le_add_right _ _), Nat.le_refl _⟩
  · rw [if_neg htlr]
    exact ⟨_, Nat.le_refl (typeEnd rep m)⟩

/-- What comes out is the packet with its own data representation, and the trailer as it came. -/
theorem unpackHdr_eq (h : WellFormed rep m) :
    unpackHdr rep (foreign rep m) = revAll (tlrFields rep m) (setDrep rep m) := by
  obtain ⟨c, htlr⟩ := ordered_tlrFields h
  have hrest := (ordered_typeFields rep m).append htlr
  have hx : ∀ i, i ≠ 4 → setDrep rep m i = m i := fun i hi => Function.update_of_ne hi _ _
  have hdrep : foreign rep m 4 = UInt8.ofNat (16 * (IntRep.other rep).code) := by
    rw [foreign, revAll_of_not_mem (ordered_commonFields.append hrest) (.inl (by decide))]
    exact Function.update_self ..
  have hswap : decide ((foreign rep m 4).toNat / 16 ≠ rep.code) = true := by
    rw [hdrep]
    cases rep <;> decide
  have hcommon : revAll commonFields (foreign rep m) =
      revAll (typeFields rep m ++ tlrFields rep m) (setDrep rep m) :=
    revAll_peel ordered_commonFields hrest
  rw [unpackHdr, hswap, if_pos rfl, hcommon, typePart_foreign h.ptype hx htlr]
  exact ite_self _

/-- A bind_ack of this machine with a secondary address of five bytes, one result, and a trailer. -/
def ackPkt : Mem := fun i =>
  if i = 2 then 12 else if i = 4 then 16 else if i = 8 then 69 else if i = 10 then 1
  else if i = 24 then 5 else if i = 32 then 1 else if i = 64 then 7 else 0

theorem ackPkt_wellFormed : WellFormed .littleEndian ackPkt := ⟨by decide, by decide, by decide⟩

end UnpackSwap

end Cn
