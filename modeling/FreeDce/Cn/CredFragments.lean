/-
Credentials in fragments (cnsassm.c, cncassm.c).

A credential that is too long for one bind_ack or alter_context_resp PDU goes out in several; the
receiver puts the pieces together in a buffer, behind the header of the first one.

* `sends_iff` — what is sent: the credential, if the first fragment carries a beginning of it;
* `keeps_iff` — what is saved: the credential, if the lengths of every fragment agree and the one
  step by which the buffer grows is enough for it; `Room.of_small` is when it is;
* `credFragments_iff` — both; `not_keeps` is a fragment that is longer than the buffer.
-/
import FreeDce.Lib.Runs
import FreeDce.Cn.SegSize

namespace Cn

namespace CredFragments

open Runs SegSize

/-! ### Sending -/

/-- The response as it was built: `credentials` is the field of its trailer, `krbMessage` the whole
credential, which is empty where it has been freed. -/
structure Response where
  krbMessage : List UInt8
  credentials : List UInt8
  dataSize : ℕ
  krbMessage_lt : krbMessage.length < 2 ^ 32
  credentials_le : credentials.length ≤ dataSize

structure SentFrag where
  firstFrag : Bool
  lastFrag : Bool
  credentials : List UInt8
  dataSize : ℕ
deriving DecidableEq, Repr

/-- Where the loop of `send_frag_resp_pdu` has got to. -/
structure Sending where
  credentials : List UInt8
  dataSize : ℕ
  credRemain : ℕ
  offset : ℕ := 0
  firstFrag : Bool := true

/-- The loop: `none` where it has not ended after so many turns, or the assertion fails. -/
def sendLoop (krbMessage : List UInt8) : ℕ → Sending → Option (List SentFrag)
  | 0, _ => none
  | turns + 1, s =>
    let credLen := s.credentials.length
    let credRemain := if 0 < s.credRemain then sub32 s.credRemain credLen else s.credRemain
    let frag : SentFrag := ⟨s.firstFrag, credRemain = 0, s.credentials, s.dataSize⟩
    if credRemain = 0 then some [frag]
    else
      let msgLength := min credLen credRemain
      let offset := s.offset + credLen
      if offset + msgLength ≤ krbMessage.length then
        (sendLoop krbMessage turns {
          credentials := (krbMessage.drop offset).take msgLength
          -- the last one is shorter
          dataSize := s.dataSize - (credLen - msgLength)
          credRemain := credRemain
          offset := offset
          firstFrag := false }).map (frag :: ·)
      else none

/-- `send_frag_resp_pdu`. -/
def sendFragRespPdu (turns : ℕ) (r : Response) : Option (List SentFrag) :=
  sendLoop r.krbMessage turns {
    credentials := r.credentials
    dataSize := r.dataSize
    credRemain := r.krbMessage.length }

/-- The loop ends, the pieces make up the credential, every fragment fits, and the last one only is
marked as the last. -/
def Sends (maxXmitFrag : ℕ) (r : Response) : Prop :=
  ∃ turns frags, sendFragRespPdu turns r = some frags ∧
    (frags.map SentFrag.credentials).flatten =
      (if r.krbMessage = [] then r.credentials else r.krbMessage) ∧
    (∀ f ∈ frags, f.dataSize ≤ maxXmitFrag) ∧
    ∃ n, frags.map SentFrag.lastFrag = List.replicate n false ++ [true]

/-- The response fits, and carries a beginning of the credential, if not the whole. -/
def Sendable (maxXmitFrag : ℕ) (r : Response) : Prop :=
  r.dataSize ≤ maxXmitFrag ∧
    (r.krbMessage = [] ∨ r.credentials ≠ [] ∧ r.credentials <+: r.krbMessage)

/-! ### Receiving -/

/-- A fragment that comes in: the length in its header, and the memory from `auth_value` on. -/
structure Frag where
  authLen : BitVec 16
  authValue : ℕ → UInt8

def Frag.bytes (f : Frag) (off len : ℕ) : List UInt8 :=
  (List.range len).map fun i => f.authValue (off + i)

/-- `RPC_CN_PKT_SIZEOF_BIND_AUTH_VAL`. -/
def sizeofBindAuthVal : ℕ := 8

def Frag.checksumLength (f : Frag) : ℕ := (f.authValue 5).toNat

def Frag.credLength (f : Frag) : ℕ := (f.authValue 6).toNat + 256 * (f.authValue 7).toNat

def Frag.credentials (f : Frag) : List UInt8 := f.bytes sizeofBindAuthVal f.credLength

/-- `auth_buffer_info`: the buffer as far as it is filled.  `frags` is the history. -/
structure AuthBufferInfo where
  authBuffer : Option (List UInt8) := none
  authBufferMax : ℕ := 0
  frags : List Frag := []

def AuthBufferInfo.saved (s : AuthBufferInfo) : List UInt8 := s.authBuffer.getD []

/-- The `cred_length` field in the buffer is counted up. -/
def addCredLength (buffer : List UInt8) (credLength : ℕ) : List UInt8 :=
  let sum := (buffer.getD 6 0).toNat + 256 * (buffer.getD 7 0).toNat + credLength
  (buffer.set 6 (UInt8.ofNat (sum % 256))).set 7 (UInt8.ofNat (sum / 256 % 256))

/-- The size of the buffer when a fragment has come. -/
def newBufferMax (s : AuthBufferInfo) (f : Frag) : ℕ :=
  let authBufferMax := if s.authBuffer = none then largeFragSize * 3 else s.authBufferMax
  if authBufferMax < f.authLen.toNat + s.saved.length then authBufferMax + largeFragSize
  else authBufferMax

/-- `save_sec_fragment`; `none` is a write beyond the buffer, or an assertion that fails. -/
def saveSecFragment (s : AuthBufferInfo) (f : Frag) : Option AuthBufferInfo :=
  let authBufferMax := newBufferMax s f
  let authValueLen := sub32 f.authLen.toNat f.checksumLength
  if s.saved.length = 0 then
    if authValueLen ≤ authBufferMax then
      some ⟨some (f.bytes 0 authValueLen), authBufferMax, s.frags ++ [f]⟩
    else none
  else
    let authValueLen := sub32 authValueLen sizeofBindAuthVal
    if authValueLen = f.credLength ∧ s.saved.length + f.credLength ≤ authBufferMax then
      some ⟨some (addCredLength (s.saved ++ f.credentials) f.credLength), authBufferMax,
        s.frags ++ [f]⟩
    else none

/-- `process_frag_action_rtn` does the same in the client. -/
def processFragActionRtn (s : AuthBufferInfo) (f : Frag) : Option AuthBufferInfo :=
  saveSecFragment s f

/-- The buffer holds a header and the credentials of the fragments that have come, if any has. -/
def Holds (s : AuthBufferInfo) : Prop :=
  s.frags = [] ∧ s.authBuffer = none ∨
    ∃ hdr : List UInt8, hdr.length = sizeofBindAuthVal ∧
      s.saved = hdr ++ (s.frags.map Frag.credentials).flatten

/-- That is so after each fragment. -/
def Keeps (save : AuthBufferInfo → Frag → Option AuthBufferInfo) (frags : List Frag) : Prop :=
  ∀ n, ∃ s, exec save {} (frags.take n) = some s ∧ Holds s

/-- The lengths of the fragment agree, and it fits into the buffer. -/
def Room (s : AuthBufferInfo) (f : Frag) : Prop :=
  f.authLen.toNat = sizeofBindAuthVal + f.credLength + f.checksumLength ∧
    max s.saved.length sizeofBindAuthVal + f.credLength ≤ newBufferMax s f

/-! ### What is sent -/

section Send

variable {krbMessage : List UInt8} {s : Sending} {turns maxXmitFrag : ℕ}

/-- From a piece of the credential on, the rest is sent. -/
theorem sendLoop_spec (hremain : s.credRemain + s.offset = krbMessage.length)
    (hcred : s.credentials = (krbMessage.drop s.offset).take s.credentials.length)
    (hne : s.credentials ≠ []) (hlen : krbMessage.length < 2 ^ 32)
    (hsize : s.dataSize ≤ maxXmitFrag) (hturns : s.credRemain < turns) :
    ∃ frags, sendLoop krbMessage turns s = some frags ∧
      (frags.map SentFrag.credentials).flatten = krbMessage.drop s.offset ∧
      (∀ f ∈ frags, f.dataSize ≤ maxXmitFrag) ∧
      ∃ n, frags.map SentFrag.lastFrag = List.replicate n false ++ [true] := by
  induction turns generalizing s with
  | zero => exact absurd hturns (Nat.not_lt_zero _)
  | succ turns ih =>
    have hpos : 0 < s.credentials.length := List.length_pos_of_ne_nil hne
    have hle : s.credentials.length ≤ s.credRemain := by
      have h := congrArg List.length hcred
      rw [List.length_take, List.length_drop] at h
      omega
    have hsub : sub32 s.credRemain s.credentials.length = s.credRemain - s.credentials.length :=
      sub32_eq hle (by omega)
    have hsplit : s.credentials ++ krbMessage.drop (s.offset + s.credentials.length) =
        krbMessage.drop s.offset := by
      rw [← List.drop_drop]
      nth_rewrite 1 [hcred]
      exact List.take_append_drop _ _
    rw [sendLoop, if_pos (hpos.trans_le hle), hsub]
    by_cases hlast : s.credRemain - s.credentials.length = 0
    · rw [if_pos hlast]
      refine ⟨_, rfl, ?_, fun f hf => ?_, 0, ?_⟩
      · rw [← hsplit, List.drop_of_length_le (by omega)]
        rfl
      · obtain rfl := List.mem_singleton.mp hf
        exact hsize
      · show [decide (s.credRemain - s.credentials.length = 0)] = [true]
        rw [decide_eq_true hlast]
    · have hfits : s.offset + s.credentials.length +
          min s.credentials.length (s.credRemain - s.credentials.length) ≤ krbMessage.length := by
        omega
      have htake : ∀ k, k ≤ s.credRemain - s.credentials.length →
          ((krbMessage.drop (s.offset + s.credentials.length)).take k).length = k := by
        intro k hk
        rw [List.length_take, List.length_drop]
        omega
      have hnext := htake _ (Nat.min_le_right s.credentials.length
        (s.credRemain - s.credentials.length))
      rw [if_neg hlast, if_pos hfits]
      obtain ⟨frags, hfrags, hcat, hsizes, n, hn⟩ := @ih
        { credentials := (krbMessage.drop (s.offset + s.credentials.length)).take
            (min s.credentials.length (s.credRemain - s.credentials.length))
          dataSize := s.dataSize - (s.credentials.length -
            min s.credentials.length (s.credRemain - s.credentials.length))
          credRemain := s.credRemain - s.credentials.length
          offset := s.offset + s.credentials.length
          firstFrag := false }
        (by show _ - _ + (_ + _) = _; omega)
        (by rw [hnext])
        (by
          refine List.ne_nil_of_length_pos ?_
          rw [hnext]
          omega)
        ((Nat.sub_le _ _).trans hsize)
        (by show _ - _ < turns; omega)
      refine ⟨_, congrArg (Option.map _) hfrags, ?_, ?_, n + 1, ?_⟩
      · rw [List.map_cons, List.flatten_cons, hcat]
        exact hsplit
      · intro f hf
        rcases List.mem_cons.mp hf with rfl | hf
        · exact hsize
        · exact hsizes f hf
      · rw [List.map_cons, hn, List.replicate_succ, List.cons_append]
        show decide (s.credRemain - s.credentials.length = 0) :: _ = _
        rw [decide_eq_false hlast]

/-- Without any credential in the first fragment the loop does not end. -/
theorem sendLoop_of_nil (hcred : s.credentials = []) (hremain : 0 < s.credRemain)
    (hlt : s.credRemain < 2 ^ 32) : sendLoop krbMessage turns s = none := by
  induction turns generalizing s with
  | zero => rfl
  | succ turns ih =>
    have hsub : sub32 s.credRemain 0 = s.credRemain := sub32_eq (Nat.zero_le _) hlt
    rw [sendLoop, hcred, List.length_nil, if_pos hremain, hsub, if_neg hremain.ne']
    dsimp only
    split
    · rw [ih]
      · rfl
      · rw [Nat.zero_min, List.take_zero]
      · exact hremain
      · exact hlt
    · rfl

theorem sends_of_sendable {r : Response} (h : Sendable maxXmitFrag r) : Sends maxXmitFrag r := by
  obtain ⟨hsize, hnil | ⟨hne, hpre⟩⟩ := h
  · refine ⟨1, [⟨true, true, r.credentials, r.dataSize⟩], ?_, ?_, fun f hf => ?_, 0, rfl⟩
    · rw [sendFragRespPdu, hnil]
      rfl
    · rw [if_pos hnil]
      exact List.append_nil _
    · obtain rfl := List.mem_singleton.mp hf
      exact hsize
  · have hmsg : r.krbMessage ≠ [] := by
      intro hnil
      rw [hnil] at hpre
      exact hne (List.prefix_nil.mp hpre)
    obtain ⟨frags, hfrags, hcat, hrest⟩ := @sendLoop_spec r.krbMessage
      { credentials := r.credentials, dataSize := r.dataSize, credRemain := r.krbMessage.length }
      (r.krbMessage.length + 1) maxXmitFrag rfl (List.prefix_iff_eq_take.mp hpre) hne
      r.krbMessage_lt hsize (Nat.lt_succ_self _)
    refine ⟨_, frags, hfrags, ?_, hrest⟩
    rw [if_neg hmsg]
    exact hcat

theorem sendable_of_sends {r : Response} (h : Sends maxXmitFrag r) : Sendable maxXmitFrag r := by
  obtain ⟨turns, frags, hfrags, hcat, hsizes, -⟩ := h
  -- the first fragment is the response as it was built
  obtain ⟨frag, rest, rfl, hcred, hsize⟩ : ∃ frag rest, frags = frag :: rest ∧
      frag.credentials = r.credentials ∧ frag.dataSize = r.dataSize := by
    rw [sendFragRespPdu] at hfrags
    cases turns with
    | zero => cases hfrags
    | succ turns =>
      rw [sendLoop] at hfrags
      dsimp only at hfrags
      generalize (if 0 < r.krbMessage.length then
        sub32 r.krbMessage.length r.credentials.length else r.krbMessage.length) = remain at hfrags
      split at hfrags
      · exact ⟨_, [], (Option.some_inj.mp hfrags).symm, rfl, rfl⟩
      · split at hfrags
        · obtain ⟨rest, -, rfl⟩ := Option.map_eq_some_iff.mp hfrags
          exact ⟨_, rest, rfl, rfl, rfl⟩
        · cases hfrags
  refine ⟨hsize ▸ hsizes frag List.mem_cons_self, or_iff_not_imp_left.mpr fun hmsg => ⟨?_, ?_⟩⟩
  · intro hnil
    rw [sendFragRespPdu, sendLoop_of_nil hnil (List.length_pos_of_ne_nil hmsg) r.krbMessage_lt]
      at hfrags
    cases hfrags
  · rw [if_neg hmsg, List.map_cons, List.flatten_cons, hcred] at hcat
    exact ⟨_, hcat⟩

/-- **What is sent.** -/
theorem sends_iff {r : Response} : Sends maxXmitFrag r ↔ Sendable maxXmitFrag r :=
  ⟨sendable_of_sends, sends_of_sendable⟩

end Send

/-! ### What is saved -/

section Save

variable {s s' : AuthBufferInfo} {f : Frag}

theorem Frag.length_bytes (f : Frag) (off len : ℕ) : (f.bytes off len).length = len := by
  rw [Frag.bytes, List.length_map, List.length_range]

theorem Frag.bytes_add (f : Frag) (off m n : ℕ) :
    f.bytes off (m + n) = f.bytes off m ++ f.bytes (off + m) n := by
  rw [Frag.bytes, List.range_add, List.map_append, List.map_map, Frag.bytes, Frag.bytes]
  congr 2
  funext i
  exact congrArg f.authValue (Nat.add_assoc off m i).symm

theorem Frag.credLength_lt (f : Frag) : f.credLength < 2 ^ 16 := by
  have hlow := (f.authValue 6).toNat_lt
  have hhigh := (f.authValue 7).toNat_lt
  rw [Frag.credLength]
  omega

theorem Frag.checksumLength_lt (f : Frag) : f.checksumLength < 2 ^ 8 := (f.authValue 5).toNat_lt

/-- Only the header in the buffer changes. -/
theorem addCredLength_append {hdr : List UInt8} (hhdr : hdr.length = sizeofBindAuthVal)
    (rest : List UInt8) (credLength : ℕ) :
    ∃ hdr' : List UInt8, hdr'.length = sizeofBindAuthVal ∧
      addCredLength (hdr ++ rest) credLength = hdr' ++ rest := by
  have hlt : ∀ i < 8, ∀ l : List UInt8, l.length = 8 → ∀ b, (l ++ rest).set i b = l.set i b ++ rest :=
    fun i hi l hl b => List.set_append_left i b (hl ▸ hi)
  rw [addCredLength, hlt 6 (by decide) hdr hhdr, hlt 7 (by decide) _ ((List.length_set).trans hhdr)]
  exact ⟨_, (List.length_set).trans ((List.length_set).trans hhdr), rfl⟩

/-- The header comes from the first fragment. -/
theorem saveSecFragment_of_nil (hempty : s.saved.length = 0) :
    saveSecFragment s f =
      if sub32 f.authLen.toNat f.checksumLength ≤ newBufferMax s f then
        some ⟨some (f.bytes 0 (sub32 f.authLen.toNat f.checksumLength)), newBufferMax s f,
          s.frags ++ [f]⟩
      else none := if_pos hempty

theorem saveSecFragment_of_ne (hne : s.saved.length ≠ 0) :
    saveSecFragment s f =
      if sub32 (sub32 f.authLen.toNat f.checksumLength) sizeofBindAuthVal = f.credLength ∧
          s.saved.length + f.credLength ≤ newBufferMax s f then
        some ⟨some (addCredLength (s.saved ++ f.credentials) f.credLength), newBufferMax s f,
          s.frags ++ [f]⟩
      else none := if_neg hne

theorem Holds.saved_of_nil (hs : s.frags = [] ∧ s.authBuffer = none) : s.saved.length = 0 := by
  rw [AuthBufferInfo.saved, hs.2]
  rfl

theorem le_saved_length {hdr rest : List UInt8} (hhdr : hdr.length = sizeofBindAuthVal)
    (hsaved : s.saved = hdr ++ rest) : sizeofBindAuthVal ≤ s.saved.length := by
  rw [hsaved, List.length_append, hhdr]
  exact Nat.le_add_right _ _

theorem ne_zero_of_le_saved (h : sizeofBindAuthVal ≤ s.saved.length) : s.saved.length ≠ 0 :=
  (Nat.lt_of_lt_of_le (by decide) h).ne'

theorem holds_step (hs : Holds s) (hroom : Room s f) :
    ∃ s', saveSecFragment s f = some s' ∧ Holds s' := by
  obtain ⟨hlen, hfits⟩ := hroom
  have hauth := f.authLen.isLt
  have hvalue : sub32 f.authLen.toNat f.checksumLength = sizeofBindAuthVal + f.credLength := by
    rw [hlen, sub32_eq (Nat.le_add_left _ _) (by omega), Nat.add_sub_cancel]
  obtain hfresh | ⟨hdr, hhdr, hsaved⟩ := hs
  · have hempty := Holds.saved_of_nil hfresh
    rw [hempty, Nat.zero_max] at hfits
    rw [saveSecFragment_of_nil hempty, hvalue, if_pos hfits]
    refine ⟨_, rfl, .inr ⟨f.bytes 0 sizeofBindAuthVal, f.length_bytes _ _, ?_⟩⟩
    show f.bytes 0 (sizeofBindAuthVal + f.credLength) = _ ++ ((s.frags ++ [f]).map _).flatten
    rw [f.bytes_add, hfresh.1, Nat.zero_add]
    exact congrArg _ (List.append_nil _).symm
  · have hlong := le_saved_length hhdr hsaved
    rw [Nat.max_eq_left hlong] at hfits
    have hcred : sub32 (sizeofBindAuthVal + f.credLength) sizeofBindAuthVal = f.credLength := by
      rw [sub32_eq (Nat.le_add_right _ _) (by omega), Nat.add_sub_cancel_left]
    obtain ⟨hdr', hhdr', hadd⟩ := addCredLength_append hhdr
      ((s.frags.map Frag.credentials).flatten ++ f.credentials) f.credLength
    rw [saveSecFragment_of_ne (ne_zero_of_le_saved hlong), hvalue, if_pos ⟨hcred, hfits⟩]
    refine ⟨_, rfl, .inr ⟨hdr', hhdr', ?_⟩⟩
    show addCredLength (s.saved ++ f.credentials) f.credLength = _ ++ ((s.frags ++ [f]).map _).flatten
    rw [hsaved, List.append_assoc, hadd, List.map_append, List.flatten_append]
    exact congrArg _ (congrArg _ (List.append_nil _).symm)

/-- Where the differences of the lengths are as they should be, so are the lengths. -/
theorem authLen_eq_of_sub32 (h : sub32 f.authLen.toNat f.checksumLength = sizeofBindAuthVal + f.credLength) :
    f.authLen.toNat = sizeofBindAuthVal + f.credLength + f.checksumLength := by
  have hauth := f.authLen.isLt
  have hcred := f.credLength_lt
  have hcheck := f.checksumLength_lt
  have hbind : sizeofBindAuthVal = 8 := rfl
  rcases Nat.lt_or_ge f.authLen.toNat f.checksumLength with hlt | hge
  · rw [sub32_of_lt hlt (by omega)] at h
    omega
  · rw [sub32_eq hge (by omega)] at h
    omega

theorem room_of_holds (hs : Holds s) (h : ∃ s', saveSecFragment s f = some s' ∧ Holds s') :
    Room s f := by
  obtain ⟨s', hs', hholds⟩ := h
  obtain hfresh | ⟨hdr, hhdr, hsaved⟩ := hs
  · -- the first fragment: what the buffer holds is what was copied
    have hempty := Holds.saved_of_nil hfresh
    rw [saveSecFragment_of_nil hempty] at hs'
    by_cases hfits : sub32 f.authLen.toNat f.checksumLength ≤ newBufferMax s f
    · rw [if_pos hfits] at hs'
      obtain rfl := Option.some_inj.mp hs'
      obtain ⟨hnil, -⟩ | ⟨hdr, hhdr, hsaved⟩ := hholds
      · exact absurd hnil (List.append_ne_nil_of_right_ne_nil _ (List.cons_ne_nil _ _))
      · rw [AuthBufferInfo.saved, Option.getD_some] at hsaved
        have hcred : ((s.frags ++ [f]).map Frag.credentials).flatten.length = f.credLength := by
          rw [hfresh.1]
          show (f.credentials ++ []).length = _
          rw [List.append_nil, Frag.credentials, f.length_bytes]
        have hlen := congrArg List.length hsaved
        rw [f.length_bytes, List.length_append, hhdr, hcred] at hlen
        rw [hlen] at hfits
        refine ⟨authLen_eq_of_sub32 hlen, ?_⟩
        rw [hempty, Nat.zero_max]
        exact hfits
    · rw [if_neg hfits] at hs'
      cases hs'
  · have hlong := le_saved_length hhdr hsaved
    rw [saveSecFragment_of_ne (ne_zero_of_le_saved hlong)] at hs'
    by_cases hcond : sub32 (sub32 f.authLen.toNat f.checksumLength) sizeofBindAuthVal =
        f.credLength ∧ s.saved.length + f.credLength ≤ newBufferMax s f
    · obtain ⟨hvalue, hfits⟩ := hcond
      have hauth := f.authLen.isLt
      have hcredlt := f.credLength_lt
      have hcheck := f.checksumLength_lt
      have hbind : sizeofBindAuthVal = 8 := rfl
      refine ⟨authLen_eq_of_sub32 ?_, ?_⟩
      · -- a difference that wrapped around would be larger than any length
        have hlt : sub32 f.authLen.toNat f.checksumLength < 2 ^ 32 := by
          rw [sub32]
          exact Nat.mod_lt _ (Nat.two_pow_pos 32)
        rcases Nat.lt_or_ge (sub32 f.authLen.toNat f.checksumLength) sizeofBindAuthVal with hsm | hge
        · rw [sub32_of_lt hsm (by omega)] at hvalue
          omega
        · rw [sub32_eq hge hlt] at hvalue
          omega
      · rw [Nat.max_eq_left hlong]
        exact hfits
    · rw [if_neg hcond] at hs'
      cases hs'

/-- **What is saved.** -/
theorem keeps_iff {frags : List Frag} :
    Keeps saveSecFragment frags ↔ Along saveSecFragment Room {} frags := by
  refine forall_take_iff_along_of_partial (I := Holds) (fun s f hs => ⟨fun hroom => ?_, ?_⟩)
    (.inl ⟨rfl, rfl⟩) (.inl ⟨rfl, rfl⟩)
  · obtain ⟨s', hs', hholds⟩ := holds_step hs hroom
    exact ⟨s', hs', hholds, hholds⟩
  · exact room_of_holds hs

/-- The step is enough for fragments that fit into a large fragment buffer. -/
theorem Room.of_small (hs : s.saved.length ≤ newBufferMax s f ∧
      (s.authBuffer ≠ none → s.saved.length ≤ s.authBufferMax))
    (hlen : f.authLen.toNat = sizeofBindAuthVal + f.credLength + f.checksumLength)
    (hsmall : f.authLen.toNat ≤ largeFragSize) : Room s f := by
  have hbind : sizeofBindAuthVal = 8 := rfl
  have hlarge : largeFragSize = 4096 := rfl
  refine ⟨hlen, ?_⟩
  rw [newBufferMax]
  by_cases hnone : s.authBuffer = none
  · have hempty : s.saved.length = 0 := by
      rw [AuthBufferInfo.saved, hnone]
      rfl
    rw [if_pos hnone, hempty, if_neg (by omega)]
    omega
  · have hmax := hs.2 hnone
    rw [if_neg hnone]
    split <;> omega

end Save

/-- **Credentials in fragments.** -/
theorem credFragments_iff (maxXmitFrag : ℕ) (r : Response) (frags : List Frag) :
    (Sends maxXmitFrag r ↔ Sendable maxXmitFrag r) ∧
      (Keeps saveSecFragment frags ↔ Along saveSecFragment Room {} frags) ∧
      (Keeps processFragActionRtn frags ↔ Along processFragActionRtn Room {} frags) :=
  ⟨sends_iff, keeps_iff, keeps_iff⟩

/-- A fragment that says it has 20000 bytes of credentials, and no more in its trailer. -/
def longFrag : Frag where
  authLen := 20008
  authValue := fun i => if i = 6 then 0x20 else if i = 7 then 0x4e else 0

theorem not_keeps : ¬ Keeps saveSecFragment [longFrag] := by
  intro h
  obtain ⟨s, hs, hholds⟩ := h 1
  have hone : saveSecFragment {} longFrag = some s := by
    rw [List.take_succ_cons, List.take_zero] at hs
    obtain ⟨s', hs', hnil⟩ := exec_cons_eq_some.mp hs
    exact hs'.trans hnil
  have hcred : longFrag.credLength = 20000 := rfl
  have hmax : newBufferMax {} longFrag = 16384 := rfl
  obtain ⟨-, hfits⟩ := room_of_holds (.inl ⟨rfl, rfl⟩) ⟨s, hone, hholds⟩
  rw [hcred, hmax] at hfits
  omega

end CredFragments

end Cn
