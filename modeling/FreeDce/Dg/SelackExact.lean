/-
Selective acknowledgement at the sender, for the facks that the receiver of the stream sends.

The fragments on the transmit queue are numbered consecutively, and so are those that the fack names;
the numbers on the wire are taken modulo `2^16`.

* `met_iff` — the mask is met by the fragments that it covers, up to the wrap;
* `selackExact_iff` — what the fack acknowledges is freed, all of it and nothing else, if and only if
  no fragment that the mask acknowledges has a number behind the wrap; a fack that says that fragment
  0 is missing is `not_selackExact`.
-/
import FreeDce.Dg.FackSafe

namespace Dg

namespace Selack

variable {xq : Xmitq} {pkt : FackPkt} {n f : ℕ} {xqe : XmitqElt}

/-! ### The highest bit -/

theorem bitLength_spec {m : ℕ} {mask : BitVec 32} (hlt : mask.toNat < 2 ^ m) :
    (mask ≠ 0 → 0 < bitLength m mask ∧ mask.getLsbD (bitLength m mask - 1) = true) ∧
      ∀ k, mask.getLsbD k = true → k < bitLength m mask := by
  induction m generalizing mask with
  | zero =>
    have hzero : mask = 0 := by
      apply BitVec.eq_of_toNat_eq
      simpa using hlt
    subst hzero
    exact ⟨fun h => absurd rfl h, fun k hk => by simp at hk⟩
  | succ m ih =>
    rw [bitLength]
    by_cases hmask : mask = 0
    · subst hmask
      exact ⟨fun h => absurd rfl h, fun k hk => by simp at hk⟩
    · rw [if_neg hmask]
      have hshift : (mask >>> 1).toNat = mask.toNat / 2 := by
        rw [BitVec.toNat_ushiftRight, Nat.shiftRight_eq_div_pow, pow_one]
      have hsmall : (mask >>> 1).toNat < 2 ^ m := by
        rw [hshift]
        omega
      obtain ⟨htop, hall⟩ := ih hsmall
      refine ⟨fun _ => ⟨Nat.succ_pos _, ?_⟩, fun k hk => ?_⟩
      · rw [Nat.add_sub_cancel]
        by_cases hrest : mask >>> 1 = 0
        · -- only bit 0 is set
          have hone : mask = 1 := by
            have hz : mask.toNat / 2 = 0 := by rw [← hshift, hrest]; rfl
            have hne : mask.toNat ≠ 0 := fun h => hmask (BitVec.eq_of_toNat_eq (by simpa using h))
            exact BitVec.eq_of_toNat_eq (by simp; omega)
          have hnone : bitLength m (mask >>> 1) = 0 := by
            rw [hrest]
            cases m with
            | zero => rfl
            | succ m => exact if_pos rfl
          rw [hnone, hone]
          rfl
        · obtain ⟨hpos, hbit⟩ := htop hrest
          rw [BitVec.getLsbD_ushiftRight] at hbit
          rwa [show 1 + (bitLength m (mask >>> 1) - 1) = bitLength m (mask >>> 1) by omega] at hbit
      · cases k with
        | zero => exact Nat.succ_pos _
        | succ k =>
          refine Nat.succ_lt_succ (hall k ?_)
          rw [BitVec.getLsbD_ushiftRight, Nat.add_comm]
          exact hk

/-- The loops go up to the last bit of the mask. -/
theorem lt_scannedBits {words : ℕ → BitVec 32} {m k : ℕ} (hk : k / 32 < m)
    (hbit : selackBit words k = true) : k < scannedBits words m := by
  cases m with
  | zero => omega
  | succ m =>
    rw [scannedBits]
    rcases Nat.lt_succ_iff_lt_or_eq.mp hk with hlt | heq
    · omega
    · rw [selackBit, heq] at hbit
      have := (bitLength_spec (m := 32) (words m).isLt).2 _ hbit
      omega

/-- The last bit that they go over is set, if there is a bit in the last word. -/
theorem selackBit_last {words : ℕ → BitVec 32} {m : ℕ} (htop : words m ≠ 0) :
    0 < scannedBits words (m + 1) ∧ (scannedBits words (m + 1) - 1) / 32 = m ∧
      selackBit words (scannedBits words (m + 1) - 1) = true := by
  obtain ⟨hpos, hbit⟩ := (bitLength_spec (m := 32) (words m).isLt).1 htop
  have hle := bitLength_le 32 (words m)
  have hdiv : (scannedBits words (m + 1) - 1) / 32 = m := by
    rw [scannedBits]
    omega
  have hmod : (scannedBits words (m + 1) - 1) % 32 = bitLength 32 (words m) - 1 := by
    rw [scannedBits]
    omega
  refine ⟨by rw [scannedBits]; omega, hdiv, ?_⟩
  rw [selackBit, hdiv, hmod]
  exact hbit

/-! ### A fack of the receiver -/

/-- The position of a fragment in the mask. -/
def maskPos (pkt : FackPkt) (xqe : XmitqElt) : ℕ := (xqe.fragnum - (pkt.fragnum + 1)).toNat

/-- The bit of the fragment is set. -/
def maskAcks (pkt : FackPkt) (xqe : XmitqElt) : Prop :=
  maskPos pkt xqe / 32 < pkt.numWords ∧ selackBit pkt.words (maskPos pkt xqe) = true

instance : Decidable (maskAcks pkt xqe) := inferInstanceAs (Decidable (_ ∧ _))

/-- The fack acknowledges the fragment, in its header or in the mask. -/
def acked (pkt : FackPkt) (xqe : XmitqElt) : Prop :=
  Serial.Le xqe.fragnum pkt.fragnum ∨ maskAcks pkt xqe

instance : Decidable (acked pkt xqe) := inferInstanceAs (Decidable (_ ∨ _))

/-- A queue of consecutive fragments, the first of them number `n`, and a fack for which `f` is the
first fragment that is missing, which the receiver of the stream may have sent.  The order of the
numbers modulo `2^16` is theirs.  Neither the header nor the mask names a fragment that was not
sent, and the last word of the mask has a bit. -/
structure Emitted (xq : Xmitq) (pkt : FackPkt) (n f : ℕ) : Prop where
  body : pkt.usingSelacks = true
  fragnums : ∀ i (h : i < xq.queue.length), (xq.queue[i]).fragnum = BitVec.ofNat 16 (n + i)
  header : pkt.fragnum + 1 = BitVec.ofNat 16 f
  near : n + xq.queue.length < f + 2 ^ 15 ∧ f ≤ n + 2 ^ 15
  headerSent : f ≤ n + (sentPart xq.firstUnsent xq.queue).length
  maskSent : ∀ k, k / 32 < pkt.numWords → selackBit pkt.words k = true →
    f + k < n + (sentPart xq.firstUnsent xq.queue).length
  lastWord : ∀ m, pkt.numWords = m + 1 → pkt.words m ≠ 0

theorem Emitted.le_iff (h : Emitted xq pkt n f) {i : ℕ} (hi : i < xq.queue.length) :
    Serial.Le (xq.queue[i]).fragnum pkt.fragnum ↔ n + i < f := by
  have hshift : Serial.Le (xq.queue[i]).fragnum pkt.fragnum ↔
      Serial.Le (BitVec.ofNat 16 (n + i + 1)) (BitVec.ofNat 16 f) := by
    rw [← h.header, h.fragnums i hi, BitVec.ofNat_add (n + i) 1, Serial.Le, Serial.Le]
    rw [show BitVec.ofNat 16 (n + i) + BitVec.ofNat 16 1 - (pkt.fragnum + 1)
      = BitVec.ofNat 16 (n + i) - pkt.fragnum from add_sub_add_right_eq_sub _ _ _]
  have := h.near
  rw [hshift, Serial.le_ofNat_iff (by omega) (by omega)]
  omega

theorem Emitted.maskPos_eq (h : Emitted xq pkt n f) {i : ℕ} (hi : i < xq.queue.length)
    (hle : f ≤ n + i) : maskPos pkt (xq.queue[i]) = n + i - f := by
  have := h.near
  obtain ⟨d, hd⟩ := Nat.exists_eq_add_of_le hle
  rw [maskPos, h.header, h.fragnums i hi, hd, BitVec.ofNat_add, add_sub_cancel_left,
    BitVec.toNat_ofNat]
  omega

/-- The number of a fragment ahead of the header, before and behind the wrap. -/
theorem Emitted.num_eq (h : Emitted xq pkt n f) {i : ℕ} (hi : i < xq.queue.length)
    (hle : f ≤ n + i) :
    (pkt.fragnum.toNat + 1 + (n + i - f) < 2 ^ 16 →
      (xq.queue[i]).num = pkt.fragnum.toNat + 1 + (n + i - f)) ∧
    (2 ^ 16 ≤ pkt.fragnum.toNat + 1 + (n + i - f) →
      (xq.queue[i]).num < pkt.fragnum.toNat + 1) := by
  have hnear := h.near
  have hf : (pkt.fragnum.toNat + 1) % 2 ^ 16 = f % 2 ^ 16 := by
    have := congrArg BitVec.toNat h.header
    simpa [BitVec.toNat_add] using this
  have hlt := pkt.fragnum.isLt
  have hnum : (xq.queue[i]).num = (n + i) % 2 ^ 16 := by
    rw [XmitqElt.num, h.fragnums i hi, BitVec.toNat_ofNat]
  rw [hnum]
  omega

theorem ne_of_sent {firstUnsent : Option ℕ} {queue : List XmitqElt}
    (h : xqe ∈ sentPart firstUnsent queue) : firstUnsent ≠ some xqe.ptr := by
  simpa using List.mem_takeWhile_imp h

/-- The header acknowledges the fragments up to number `f`. -/
theorem Emitted.behind_eq (h : Emitted xq pkt n f) :
    behind xq pkt.fragnum = xq.queue.drop (f - n) := by
  have hsent := h.headerSent
  have hsentlen : (sentPart xq.firstUnsent xq.queue).length ≤ xq.queue.length :=
    (List.takeWhile_sublist _).length_le
  have hsplit : behind xq pkt.fragnum = (xq.queue.drop (f - n)).dropWhile fun xqe =>
      xq.firstUnsent ≠ some xqe.ptr ∧ Serial.Le xqe.fragnum pkt.fragnum := by
    conv_lhs => rw [behind, ← List.take_append_drop (f - n) xq.queue]
    refine List.dropWhile_append_of_pos fun xqe hxqe => ?_
    obtain ⟨i, hi, rfl⟩ := List.mem_take_iff_getElem.mp hxqe
    have hmem : xq.queue[i] ∈ sentPart xq.firstUnsent xq.queue := by
      have hpre : sentPart xq.firstUnsent xq.queue <+: xq.queue := List.takeWhile_prefix _
      rw [← hpre.getElem (show i < (sentPart xq.firstUnsent xq.queue).length by omega)]
      exact List.getElem_mem _
    rw [decide_eq_true_eq]
    exact ⟨ne_of_sent hmem, (h.le_iff (by omega)).mpr (by omega)⟩
  rw [hsplit]
  rcases Nat.lt_or_ge (f - n) xq.queue.length with hlt | hge
  · rw [List.drop_eq_getElem_cons hlt]
    refine List.dropWhile_cons_of_neg ?_
    rw [decide_eq_true_eq]
    rintro ⟨-, hle⟩
    have := (h.le_iff hlt).mp hle
    omega
  · rw [List.drop_eq_nil_of_le hge]
    rfl

/-- A fragment behind the header's number, by its place on the queue. -/
theorem Emitted.exists_index (h : Emitted xq pkt n f) (hmem : xqe ∈ behind xq pkt.fragnum) :
    ∃ i, ∃ hi : i < xq.queue.length, f ≤ n + i ∧ xq.queue[i] = xqe := by
  rw [h.behind_eq] at hmem
  obtain ⟨j, hj, rfl⟩ := List.mem_drop_iff_getElem.mp hmem
  exact ⟨f - n + j, by omega, by omega, rfl⟩

theorem Emitted.pairwise_maskPos (h : Emitted xq pkt n f) :
    (behind xq pkt.fragnum).Pairwise (maskPos pkt · < maskPos pkt ·) := by
  rw [h.behind_eq, List.pairwise_iff_getElem]
  intro i j hi hj hij
  rw [List.length_drop] at hi hj
  rw [List.getElem_drop, List.getElem_drop, h.maskPos_eq (by omega) (by omega),
    h.maskPos_eq (by omega) (by omega)]
  omega

/-- The cursor meets the fragments up to the last bit of the mask, except those behind the wrap. -/
theorem Emitted.met_iff (h : Emitted xq pkt n f) (hmem : xqe ∈ behind xq pkt.fragnum) :
    xqe ∈ met xq pkt ↔ pkt.fragnum.toNat + 1 + maskPos pkt xqe < 2 ^ 16 ∧
      maskPos pkt xqe < scannedBits pkt.words pkt.numWords := by
  have hnum : ∀ x ∈ behind xq pkt.fragnum,
      (pkt.fragnum.toNat + 1 + maskPos pkt x < 2 ^ 16 →
        x.num = pkt.fragnum.toNat + 1 + maskPos pkt x) ∧
      (2 ^ 16 ≤ pkt.fragnum.toNat + 1 + maskPos pkt x → x.num < pkt.fragnum.toNat + 1) := by
    intro x hx
    obtain ⟨i, hi, hle, rfl⟩ := h.exists_index hx
    rw [h.maskPos_eq hi hle]
    exact h.num_eq hi hle
  rw [met, metBefore, Climb.mem_upTo_iff h.pairwise_maskPos hnum le_rfl
    (fun _ _ => Nat.le_add_right _ _) hmem]
  omega

/-- The mask is met by fragments that have been sent. -/
theorem Emitted.sent_of_met (h : Emitted xq pkt n f) (hmet : xqe ∈ met xq pkt) :
    xqe ∈ sentPart xq.firstUnsent xq.queue := by
  have hmem : xqe ∈ behind xq pkt.fragnum := by
    rw [← met_append_unmet]
    exact List.mem_append_left _ hmet
  obtain ⟨-, hscan⟩ := (h.met_iff hmem).mp hmet
  obtain ⟨i, hi, hle, rfl⟩ := h.exists_index hmem
  rw [h.maskPos_eq hi hle] at hscan
  cases hwords : pkt.numWords with
  | zero =>
    rw [hwords] at hscan
    exact absurd hscan (Nat.not_lt_zero _)
  | succ m =>
    obtain ⟨hpos, hdiv, hbit⟩ := selackBit_last (h.lastWord m hwords)
    rw [hwords] at hscan
    have hsent := h.maskSent _ (by rw [hdiv, hwords]; exact Nat.lt_succ_self m) hbit
    have hpre : sentPart xq.firstUnsent xq.queue <+: xq.queue := List.takeWhile_prefix _
    rw [← hpre.getElem (show i < (sentPart xq.firstUnsent xq.queue).length by omega)]
    exact List.getElem_mem _

/-- The fragments that have been sent: those that the header acknowledges, those that the mask is met
by, and what the last scan goes over. -/
theorem Emitted.sentPart_eq (h : Emitted xq pkt n f) : sentPart xq.firstUnsent xq.queue =
    xq.queue.take (f - n) ++ (met xq pkt ++ sentPart xq.firstUnsent (unmet xq pkt)) := by
  have hpre : sentPart xq.firstUnsent xq.queue <+: xq.queue := List.takeWhile_prefix _
  have hsent := h.headerSent
  conv_lhs =>
    rw [sentPart, ← List.take_append_drop (f - n) xq.queue, ← h.behind_eq, ← met_append_unmet]
  rw [List.takeWhile_append_of_pos, List.takeWhile_append_of_pos]
  · rfl
  · intro x hx
    simpa using ne_of_sent (h.sent_of_met hx)
  · intro x hx
    obtain ⟨i, hi, rfl⟩ := List.mem_take_iff_getElem.mp hx
    have hmem : xq.queue[i] ∈ sentPart xq.firstUnsent xq.queue := by
      rw [← hpre.getElem (show i < (sentPart xq.firstUnsent xq.queue).length by omega)]
      exact List.getElem_mem _
    simpa using ne_of_sent hmem

/-! ### What is freed -/

/-- The fack frees the sent fragments that it acknowledges, keeps all others in order, and sends again
none but sent fragments that are still queued. -/
def SelackExact (resvs : Resvs) (xq : Xmitq) (pkt : FackPkt) : Prop :=
  ∃ r, fackCommon resvs xq pkt = some r ∧
    ptrs r.xq.queue = ptrs (xq.queue.filter fun xqe =>
      ¬ (xqe ∈ sentPart xq.firstUnsent xq.queue ∧ acked pkt xqe)) ∧
    ∀ p ∈ r.xq.rexmitq, p ∈ ptrs r.xq.queue ∧ p ∈ ptrs (sentPart xq.firstUnsent xq.queue)

/-- No sent fragment that the mask acknowledges has a number behind the wrap. -/
def MaskBeforeWrap (xq : Xmitq) (pkt : FackPkt) : Prop :=
  ∀ xqe ∈ sentPart xq.firstUnsent xq.queue, ¬ Serial.Le xqe.fragnum pkt.fragnum →
    maskAcks pkt xqe → pkt.fragnum.toNat < xqe.fragnum.toNat

theorem Emitted.not_le (h : Emitted xq pkt n f) (hmem : xqe ∈ behind xq pkt.fragnum) :
    ¬ Serial.Le xqe.fragnum pkt.fragnum := by
  obtain ⟨i, hi, hle, rfl⟩ := h.exists_index hmem
  rw [h.le_iff hi]
  omega

/-- Before the wrap is where the number is greater than the header's. -/
theorem Emitted.before_iff (h : Emitted xq pkt n f) (hmem : xqe ∈ behind xq pkt.fragnum) :
    pkt.fragnum.toNat + 1 + maskPos pkt xqe < 2 ^ 16 ↔ pkt.fragnum.toNat < xqe.fragnum.toNat := by
  obtain ⟨i, hi, hle, rfl⟩ := h.exists_index hmem
  obtain ⟨hbefore, hafter⟩ := h.num_eq hi hle
  rw [h.maskPos_eq hi hle]
  rw [XmitqElt.num] at hbefore hafter
  constructor
  · intro hlt
    have := hbefore hlt
    omega
  · intro hlt
    by_contra hge
    have := hafter (by omega)
    omega

/-- A fragment whose bit is set is met exactly if it is before the wrap. -/
theorem Emitted.met_iff_of_acked (h : Emitted xq pkt n f) (hmem : xqe ∈ behind xq pkt.fragnum)
    (hack : maskAcks pkt xqe) :
    xqe ∈ met xq pkt ↔ pkt.fragnum.toNat < xqe.fragnum.toNat := by
  rw [h.met_iff hmem, h.before_iff hmem]
  exact and_iff_left (lt_scannedBits hack.1 hack.2)

/-- The bit that is looked at is the fragment's. -/
theorem Emitted.acked_iff_of_met (h : Emitted xq pkt n f) (hmet : xqe ∈ met xq pkt) :
    acked pkt xqe ↔ selackBit pkt.words (xqe.num - (pkt.fragnum.toNat + 1)) = true := by
  have hmem : xqe ∈ behind xq pkt.fragnum := by
    rw [← met_append_unmet]
    exact List.mem_append_left _ hmet
  obtain ⟨hbefore, hscan⟩ := (h.met_iff hmem).mp hmet
  have hnum : xqe.num - (pkt.fragnum.toNat + 1) = maskPos pkt xqe := by
    obtain ⟨i, hi, hle, rfl⟩ := h.exists_index hmem
    rw [h.maskPos_eq hi hle] at hbefore ⊢
    have := (h.num_eq hi hle).1 hbefore
    omega
  have hword : maskPos pkt xqe / 32 < pkt.numWords := by
    have hle : ∀ m, scannedBits pkt.words m ≤ 32 * m := by
      intro m
      cases m with
      | zero => exact le_rfl
      | succ m =>
        have := bitLength_le 32 (pkt.words m)
        rw [scannedBits]
        omega
    have := hle pkt.numWords
    omega
  rw [hnum, acked, or_iff_right (h.not_le hmem), maskAcks]
  exact and_iff_right hword

/-- The mask leaves nothing unread that it should not: the routine comes through. -/
theorem Emitted.onQueue_unmet (h : Emitted xq pkt n f) (hxq : XmitqOk xq) :
    OnQueue xq.firstUnsent (unmet xq pkt) := by
  rw [onQueue_unmet_iff hxq]
  intro p hp hmem
  obtain ⟨xqe, hxqe, rfl⟩ := List.mem_map.mp hmem
  exact ne_of_sent (h.sent_of_met hxqe) hp

/-- The queue in three parts: what the header acknowledges, what the cursor meets, and the rest. -/
theorem Emitted.queue_eq (h : Emitted xq pkt n f) :
    xq.queue = xq.queue.take (f - n) ++ (met xq pkt ++ unmet xq pkt) := by
  rw [met_append_unmet, h.behind_eq, List.take_append_drop]

theorem mem_behind_of_unmet (hmem : xqe ∈ unmet xq pkt) : xqe ∈ behind xq pkt.fragnum := by
  rw [← met_append_unmet]
  exact List.mem_append_right _ hmem

theorem Emitted.le_of_mem_take (h : Emitted xq pkt n f) (hmem : xqe ∈ xq.queue.take (f - n)) :
    Serial.Le xqe.fragnum pkt.fragnum := by
  obtain ⟨i, hi, rfl⟩ := List.mem_take_iff_getElem.mp hmem
  exact (h.le_iff (by omega)).mpr (by omega)

/-- A fragment that only the mask acknowledges is not met, and so stays, if it is behind the wrap. -/
theorem Emitted.unmet_of_wrap (h : Emitted xq pkt n f) (hmem : xqe ∈ xq.queue)
    (hle : ¬ Serial.Le xqe.fragnum pkt.fragnum) (hack : maskAcks pkt xqe)
    (hwrap : ¬ pkt.fragnum.toNat < xqe.fragnum.toNat) : xqe ∈ unmet xq pkt := by
  rw [h.queue_eq, List.mem_append] at hmem
  rcases hmem with htake | hrest
  · exact absurd (h.le_of_mem_take htake) hle
  · have hbehind : xqe ∈ behind xq pkt.fragnum := by rwa [met_append_unmet] at hrest
    rw [List.mem_append] at hrest
    exact hrest.resolve_left fun hmet => hwrap ((h.met_iff_of_acked hbehind hack).mp hmet)

/-- Taking off the queue what is acknowledged leaves what the routine leaves. -/
theorem Emitted.filter_eq (h : Emitted xq pkt n f) (hxq : XmitqOk xq)
    (hwrap : MaskBeforeWrap xq pkt) :
    xq.queue.filter (fun xqe => ¬ (xqe ∈ sentPart xq.firstUnsent xq.queue ∧ acked pkt xqe))
      = unacked xq pkt ++ unmet xq pkt := by
  have hnodup : (met xq pkt ++ unmet xq pkt).Nodup := by
    rw [met_append_unmet]
    exact (List.Nodup.of_map _ hxq.nodup).sublist (List.dropWhile_sublist _)
  have hsplit : ∀ q : XmitqElt → Bool, xq.queue.filter q = (xq.queue.take (f - n)).filter q
      ++ ((met xq pkt).filter q ++ (unmet xq pkt).filter q) := by
    intro q
    conv_lhs => rw [h.queue_eq]
    rw [List.filter_append, List.filter_append]
  have hhead : (xq.queue.take (f - n)).filter (fun xqe =>
      ¬ (xqe ∈ sentPart xq.firstUnsent xq.queue ∧ acked pkt xqe)) = [] := by
    rw [List.filter_eq_nil_iff]
    intro x hx
    have hsent : x ∈ sentPart xq.firstUnsent xq.queue := by
      rw [h.sentPart_eq]
      exact List.mem_append_left _ hx
    rw [decide_eq_true_eq, not_not]
    exact ⟨hsent, .inl (h.le_of_mem_take hx)⟩
  have hmask : (met xq pkt).filter (fun xqe =>
      ¬ (xqe ∈ sentPart xq.firstUnsent xq.queue ∧ acked pkt xqe)) = unacked xq pkt := by
    refine List.filter_congr fun x hx => ?_
    have hiff := h.acked_iff_of_met hx
    cases hbit : selackBit pkt.words (x.num - (pkt.fragnum.toNat + 1)) with
    | true =>
      rw [hbit] at hiff
      simp [h.sent_of_met hx, hiff.mpr rfl]
    | false =>
      rw [hbit] at hiff
      have hnot : ¬ acked pkt x := fun hack => Bool.false_ne_true (hiff.mp hack)
      simp [hnot]
  have hrest : (unmet xq pkt).filter (fun xqe =>
      ¬ (xqe ∈ sentPart xq.firstUnsent xq.queue ∧ acked pkt xqe)) = unmet xq pkt := by
    rw [List.filter_eq_self]
    intro x hx
    rw [decide_eq_true_eq]
    rintro ⟨hsent, hack⟩
    -- the mask acknowledges it, and below the wrap the cursor would have met it
    have hmem := mem_behind_of_unmet hx
    have hmaskAcks : maskAcks pkt x := hack.resolve_left (h.not_le hmem)
    have hmet := (h.met_iff_of_acked hmem hmaskAcks).mpr (hwrap x hsent (h.not_le hmem) hmaskAcks)
    exact (List.disjoint_of_nodup_append hnodup) hmet hx
  rw [hsplit, hhead, hmask, hrest, List.nil_append]

/-- **A fack of the receiver is carried out exactly** if and only if no fragment that it acknowledges
in its mask has a number that started again from 0. -/
theorem selackExact_iff (hxq : XmitqOk xq) (h : Emitted xq pkt n f) (resvs : Resvs) :
    SelackExact resvs xq pkt ↔ MaskBeforeWrap xq pkt := by
  obtain ⟨r, hr, hhandled, hagain, -⟩ :=
    (fackCommon_of_mask hxq resvs h.body).1 (h.onQueue_unmet hxq)
  constructor
  · rintro ⟨r', hr', hqueue, -⟩ xqe hsent hle hack
    rw [hr] at hr'
    cases hr'
    by_contra hwrap
    have hmem : xqe ∈ xq.queue := (List.takeWhile_sublist _).subset hsent
    have hstays : xqe.ptr ∈ ptrs r.xq.queue := by
      rw [hhandled.queue, ptrs_append]
      exact List.mem_append_right _ (List.mem_map_of_mem (h.unmet_of_wrap hmem hle hack hwrap))
    rw [hqueue] at hstays
    obtain ⟨x, hx, hptr⟩ := List.mem_map.mp hstays
    obtain ⟨hxq', hkeep⟩ := List.mem_filter.mp hx
    obtain rfl : x = xqe := List.inj_on_of_nodup_map hxq.nodup hxq' hmem hptr
    rw [decide_eq_true_eq] at hkeep
    exact hkeep ⟨hsent, .inr hack⟩
  · intro hwrap
    refine ⟨r, hr, ?_, fun p hp => ⟨?_, ?_⟩⟩
    · rw [hhandled.queue, h.filter_eq hxq hwrap]
    · rw [hhandled.queue]
      exact hhandled.rexmitq.subset hp
    · have hsub := hagain.subset hp
      rw [ptrs_append, List.mem_append] at hsub
      rw [h.sentPart_eq, ptrs_append, ptrs_append, List.mem_append, List.mem_append]
      rcases hsub with hun | hscan
      · exact .inr (.inl (((List.filter_sublist).map _).subset hun))
      · exact .inr (.inr hscan)

/-- Two fragments have been sent; the first is missing, and the mask acknowledges the second. -/
def firstMissing : Xmitq :=
  { queue := [{ ptr := 1, fragnum := 0, serialNum := 0, inCwindow := true },
      { ptr := 2, fragnum := 1, serialNum := 1, inCwindow := true }]
    nextFragnum := 2
    cwindowSize := 2 }

def firstMissingFack : FackPkt :=
  { fragnum := 0xffff, len := 20, serialNum := 1, selackLen := 1, selack := fun _ => 2 }

theorem xmitqOk_firstMissing : XmitqOk firstMissing where
  onQueue p hp := by cases hp
  nodup := by decide

theorem selackBit_two {m k : ℕ} (hk : selackBit (fun _ => 2#32) k = true) (hword : k / 32 < m)
    (hm : m = 1) : k = 1 := by
  subst hm
  have hlt : k < 32 := by omega
  revert hk
  have hall : ∀ j < 32, selackBit (fun _ => 2#32) j = true → j = 1 := by decide
  exact hall k hlt

theorem emitted_firstMissing : Emitted firstMissing firstMissingFack 0 0 where
  body := by decide
  fragnums i hi := by
    have : i < 2 := hi
    interval_cases i <;> rfl
  header := by decide
  near := by decide
  headerSent := by decide
  maskSent k hword hk := by
    obtain rfl := selackBit_two hk hword rfl
    decide
  lastWord m hm := by
    show (2 : BitVec 32) ≠ 0
    decide

/-- Fragment 0 is acknowledged, and nothing behind it has arrived. -/
theorem selackExact_iff_inorder : SelackExact {} firstMissing { fragnum := 0, len := 20 } := by
  have hemitted : Emitted firstMissing { fragnum := 0, len := 20 } 0 1 :=
    { body := by decide
      fragnums := emitted_firstMissing.fragnums
      header := by decide
      near := by decide
      headerSent := by decide
      maskSent := fun k hk => absurd hk (Nat.not_lt_zero _)
      lastWord := fun m hm => absurd hm (Nat.succ_ne_zero m).symm }
  exact (selackExact_iff xmitqOk_firstMissing hemitted {}).mpr
    fun xqe _ _ hack => absurd hack.1 (Nat.not_lt_zero _)

/-- Fragment 1 stays on the queue, although its bit is set. -/
theorem not_selackExact : ¬ SelackExact {} firstMissing firstMissingFack := by
  rintro ⟨r, hr, hqueue, -⟩
  have hrun : (fackCommon {} firstMissing firstMissingFack).map (fun r => ptrs r.xq.queue)
      = some [1, 2] := by decide
  rw [hr] at hrun
  have hptrs : ptrs r.xq.queue = [1, 2] := Option.some_inj.mp hrun
  rw [hptrs] at hqueue
  exact absurd hqueue (by decide)

end Selack

end Dg
