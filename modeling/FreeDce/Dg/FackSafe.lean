/-
What a fack can do to the sender, whatever it says (`rpc__dg_fack_common` in dglsn.c).

* `fackCommon_of_mask` — the routine on a fack with a mask: which fragments are left, which are to be
  sent again, and when the scan runs off the queue;
* `fackSafe_iff` — the routine comes through, and reads no word of the mask that it did not receive,
  if and only if the fack has a whole body, the mask does not get to the first unsent fragment, and
  the words it is said to have are there; a nocall with a body of the old kind is `not_fackSafe`.
-/
import FreeDce.Dg.Selack

namespace Dg

namespace Selack

variable {fack : Heard} {firstUnsent : Option ℕ} {queue : List XmitqElt} {s : Scan}

/-! ### The queue behind the number in the header -/

/-- The queue without what the header of the fack acknowledges. -/
def behind (xq : Xmitq) (fragnum : BitVec 16) : List XmitqElt :=
  xq.queue.dropWhile fun xqe => xq.firstUnsent ≠ some xqe.ptr ∧ Serial.Le xqe.fragnum fragnum

/-- `first_unsent` is on the queue, if it is not null, and no element is there twice. -/
structure XmitqOk (xq : Xmitq) : Prop where
  onQueue : OnQueue xq.firstUnsent xq.queue
  nodup : (ptrs xq.queue).Nodup

theorem onQueue_dropWhile {p : XmitqElt → Bool} (h : OnQueue firstUnsent queue)
    (hp : ∀ xqe, firstUnsent = some xqe.ptr → p xqe = false) :
    OnQueue firstUnsent (queue.dropWhile p) := by
  induction queue with
  | nil => exact h
  | cons xqe rest ih =>
    rw [List.dropWhile_cons]
    split
    · rename_i hpass
      refine ih ((onQueue_cons fun hfirst => ?_).mp h)
      rw [hp xqe hfirst] at hpass
      exact Bool.false_ne_true hpass
    · exact h

theorem XmitqOk.onQueue_behind {xq : Xmitq} (h : XmitqOk xq) (fragnum : BitVec 16) :
    OnQueue xq.firstUnsent (behind xq fragnum) :=
  onQueue_dropWhile h.onQueue fun xqe hfirst => by simp [hfirst]

theorem unsentPart_append {l m : List XmitqElt} (h : ∀ p, firstUnsent = some p → p ∉ ptrs l) :
    unsentPart firstUnsent (l ++ m) = unsentPart firstUnsent m := by
  refine List.dropWhile_append_of_pos fun xqe hxqe => ?_
  rw [decide_eq_true_eq]
  intro hfirst
  exact h _ hfirst (List.mem_map_of_mem hxqe)

theorem unsentPart_unsentPart :
    unsentPart firstUnsent (unsentPart firstUnsent queue) = unsentPart firstUnsent queue := by
  rw [unsentPart, unsentPart, List.dropWhile_idempotent]

/-- What the header acknowledges has been sent. -/
theorem unsentPart_behind (xq : Xmitq) (fragnum : BitVec 16) :
    unsentPart xq.firstUnsent (behind xq fragnum) = unsentPart xq.firstUnsent xq.queue := by
  have hsplit : xq.queue = xq.queue.takeWhile (fun xqe =>
      xq.firstUnsent ≠ some xqe.ptr ∧ Serial.Le xqe.fragnum fragnum) ++ behind xq fragnum :=
    List.takeWhile_append_dropWhile.symm
  conv_rhs => rw [hsplit]
  refine (unsentPart_append fun p hp hmem => ?_).symm
  obtain ⟨xqe, hxqe, rfl⟩ := List.mem_map.mp hmem
  have := List.mem_takeWhile_imp hxqe
  rw [decide_eq_true_eq] at this
  exact this.1 hp

theorem onQueue_append_left {l m : List XmitqElt} (h : OnQueue firstUnsent m) :
    OnQueue firstUnsent (l ++ m) := by
  intro p hp
  rw [ptrs_append, List.mem_append]
  exact .inr (h p hp)

theorem onQueue_of_ptrs {l m : List XmitqElt} (hlm : ptrs l = ptrs m) (h : OnQueue firstUnsent m) :
    OnQueue firstUnsent l := by
  intro p hp
  rw [hlm]
  exact h p hp

/-! ### The mask of a packet -/

/-- The words as they are read. -/
def FackPkt.words (pkt : FackPkt) (i : ℕ) : BitVec 32 := pkt.inq32 (pkt.selack i)

/-- `selack_len`, in the byte order of this machine. -/
def FackPkt.numWords (pkt : FackPkt) : ℕ := (pkt.inq16 pkt.selackLen).toNat

/-- The elements that the cursor meets before it gets to `hi`. -/
def metBefore (xq : Xmitq) (pkt : FackPkt) (hi : ℕ) : List XmitqElt :=
  Climb.upTo XmitqElt.num (pkt.fragnum.toNat + 1) (pkt.fragnum.toNat + 1 + hi) (behind xq pkt.fragnum)

/-- The elements that the mask is met by. -/
def met (xq : Xmitq) (pkt : FackPkt) : List XmitqElt :=
  metBefore xq pkt (scannedBits pkt.words pkt.numWords)

/-- What is left of the queue when the mask has been handled. -/
def unmet (xq : Xmitq) (pkt : FackPkt) : List XmitqElt :=
  (behind xq pkt.fragnum).drop (met xq pkt).length

theorem met_append_unmet (xq : Xmitq) (pkt : FackPkt) :
    met xq pkt ++ unmet xq pkt = behind xq pkt.fragnum := Climb.upTo_append_drop

/-- The elements of the mask's part that stay. -/
def unacked (xq : Xmitq) (pkt : FackPkt) : List XmitqElt :=
  (met xq pkt).filter fun xqe => !selackBit pkt.words (xqe.num - (pkt.fragnum.toNat + 1))

/-- Word `k` of the mask is read. -/
def ReadsWord (xq : Xmitq) (pkt : FackPkt) (k : ℕ) : Prop :=
  k < pkt.numWords ∧ (k = 0 ∨ metBefore xq pkt (32 * k) ≠ behind xq pkt.fragnum)

/-! ### The routine -/

section Frame

variable (xq : Xmitq) (a b : BitVec 32)

theorem noteLoss_frame : (noteLoss xq b).queue = xq.queue ∧ (noteLoss xq b).rexmitq = xq.rexmitq ∧
    (noteLoss xq b).firstUnsent = xq.firstUnsent := by
  unfold noteLoss
  dsimp only
  split_ifs <;> exact ⟨rfl, rfl, rfl⟩

theorem raiseMaxBlast_frame : (raiseMaxBlast xq).queue = xq.queue ∧
    (raiseMaxBlast xq).rexmitq = xq.rexmitq ∧ (raiseMaxBlast xq).firstUnsent = xq.firstUnsent := by
  unfold raiseMaxBlast
  dsimp only
  split_ifs <;> exact ⟨rfl, rfl, rfl⟩

theorem sizeBlast_frame : (sizeBlast xq a b).queue = xq.queue ∧
    (sizeBlast xq a b).rexmitq = xq.rexmitq ∧
    (sizeBlast xq a b).firstUnsent = xq.firstUnsent := by
  obtain ⟨hq, hr, hf⟩ := raiseMaxBlast_frame (noteLoss xq b)
  obtain ⟨hq', hr', hf'⟩ := noteLoss_frame xq b
  exact ⟨hq.trans hq', hr.trans hr', hf.trans hf'⟩

theorem adoptFragSize_frame (resvs : Resvs) (size : BitVec 32) :
    (adoptFragSize resvs xq size).queue = xq.queue ∧
    (adoptFragSize resvs xq size).rexmitq = xq.rexmitq ∧
    (adoptFragSize resvs xq size).firstUnsent = xq.firstUnsent := by
  unfold adoptFragSize
  split_ifs <;> exact ⟨rfl, rfl, rfl⟩

end Frame


/-- The mask, where there are elements behind the number in the header.  The scan for lost fragments
comes through if the mask did not get to the first unsent one. -/
theorem doSelectiveAck_spec {xq : Xmitq} {pkt : FackPkt} (hfack : fack.fragnum = pkt.fragnum)
    (hne : behind xq pkt.fragnum ≠ []) :
    (OnQueue xq.firstUnsent (unmet xq pkt) → ∃ s' read,
      doSelectiveAck fack xq.firstUnsent pkt (behind xq pkt.fragnum) s
        = some ((unsentPart xq.firstUnsent (unmet xq pkt), s'), read) ∧
      Sifted s s' (met xq pkt ++ sentPart xq.firstUnsent (unmet xq pkt))
        (unacked xq pkt ++ sentPart xq.firstUnsent (unmet xq pkt)) ∧
      ∀ k, k < read ↔ ReadsWord xq pkt k) ∧
    (¬ OnQueue xq.firstUnsent (unmet xq pkt) →
      doSelectiveAck fack xq.firstUnsent pkt (behind xq pkt.fragnum) s = none) := by
  have hwalk : (maskWords fack pkt.words pkt.numWords 0 (pkt.fragnum.toNat + 1)
      (behind xq pkt.fragnum) s).1 = _ := maskWords_eq pkt.numWords
  rw [Climb.walk_eq] at hwalk
  have hrest : (maskWords fack pkt.words pkt.numWords 0 (pkt.fragnum.toNat + 1)
      (behind xq pkt.fragnum) s).1.1 = unmet xq pkt := by
    rw [hwalk]
    rfl
  have hsifted : Sifted s (maskWords fack pkt.words pkt.numWords 0 (pkt.fragnum.toNat + 1)
      (behind xq pkt.fragnum) s).1.2 (met xq pkt) (unacked xq pkt) := by
    rw [hwalk]
    exact sifted_mask _
  have hread : ∀ k, k < (maskWords fack pkt.words pkt.numWords 0 (pkt.fragnum.toNat + 1)
      (behind xq pkt.fragnum) s).2 ↔ ReadsWord xq pkt k := by
    intro k
    have h : k < (maskWords fack pkt.words pkt.numWords 0 (pkt.fragnum.toNat + 1 + 32 * 0)
        (behind xq pkt.fragnum) s).2 ↔ _ := lt_wordsRead_iff pkt.numWords 0 k
    rw [Nat.mul_zero, Nat.add_zero, Climb.walk_eq, Nat.sub_zero] at h
    rw [h, ReadsWord, metBefore]
    simp only [Nat.not_lt_zero, Nat.zero_le, true_and, false_or, Nat.zero_add, ne_eq,
      List.drop_eq_nil_iff]
    refine and_congr_right fun _ => or_congr_right (not_congr ?_)
    -- the climbing prefix is the whole queue if it is as long
    have hpre := @Climb.upTo_append_drop _ XmitqElt.num (pkt.fragnum.toNat + 1)
      (pkt.fragnum.toNat + 1 + 32 * k) (behind xq pkt.fragnum)
    constructor
    · intro hle
      rw [List.drop_eq_nil_iff.mpr hle, List.append_nil] at hpre
      exact hpre
    · intro heq
      rw [heq]
  have hdo : doSelectiveAck fack xq.firstUnsent pkt (behind xq pkt.fragnum) s =
      (tailScan fack xq.firstUnsent (unmet xq pkt) (maskWords fack pkt.words pkt.numWords 0
        (pkt.fragnum.toNat + 1) (behind xq pkt.fragnum) s).1.2).map fun t =>
          (t, (maskWords fack pkt.words pkt.numWords 0 (pkt.fragnum.toNat + 1)
            (behind xq pkt.fragnum) s).2) := by
    rw [doSelectiveAck, if_neg hne, hfack, ← hrest]
    rfl
  rw [hdo]
  obtain ⟨hon, hoff⟩ := @tailScan_spec fack xq.firstUnsent (maskWords fack pkt.words pkt.numWords 0
    (pkt.fragnum.toNat + 1) (behind xq pkt.fragnum) s).1.2 (unmet xq pkt)
  refine ⟨fun h => ?_, fun h => by rw [hoff h]; rfl⟩
  obtain ⟨s', hs', hs⟩ := hon h
  exact ⟨s', _, by rw [hs']; rfl, hsifted.trans hs, hread⟩

/-- What the routine makes of a fack, with the elements that stay. -/
structure Handled (xq : Xmitq) (pkt : FackPkt) (r : Result) (stays : List XmitqElt) : Prop where
  firstUnsent : r.xq.firstUnsent = xq.firstUnsent
  queue : ptrs r.xq.queue = ptrs stays
  rexmitq : r.xq.rexmitq.Sublist (ptrs stays)
  rexmitCnt : r.rexmitCnt = BitVec.ofNat 32 r.xq.rexmitq.length
  unsent : unsentPart xq.firstUnsent r.xq.queue = unsentPart xq.firstUnsent xq.queue

/-- The queue with the fields that are set before the queue is looked at. -/
theorem fackCommon_head {xq : Xmitq} (hxq : XmitqOk xq) (resvs : Resvs) (pkt : FackPkt) :
    ∃ (xq' : Xmitq) (heard : Heard) (s : Scan), (xq'.firstUnsent = xq.firstUnsent ∧
      xq'.nextFragnum = xq.nextFragnum ∧ xq'.maxBlastSize = xq.maxBlastSize) ∧
      heard.fragnum = pkt.fragnum ∧ s.kept = [] ∧ s.rexmitq = [] ∧ s.rexmitCnt = 0 ∧
      fackCommon resvs xq pkt =
        if 0 < pkt.len then
          if pkt.usingSelacks then
            (doFackBody heard resvs xq' pkt (behind xq pkt.fragnum) s).map fun r =>
              ⟨sizeBlast r.1 r.2.1.windowIncr r.2.1.rexmitCnt, r.2.1.rexmitCnt, r.2.2⟩
          else none
        else
          some ⟨sizeBlast (xq'.put (behind xq pkt.fragnum) s) s.windowIncr s.rexmitCnt,
            s.rexmitCnt, 0⟩ := by
  obtain ⟨s, hs, hkept, hrexmitq, hcnt⟩ := @ackInclusive_spec
    ⟨pkt.fragnum, if pkt.usingSelacks then pkt.inq16 pkt.serialNum else xq.lastFackSerial⟩
    xq.firstUnsent ⟨[], [], [], xq.cwindowSize, xq.freqsOut, 0, 0, xq.lastFackSerial⟩
    pkt.usingSelacks xq.queue hxq.onQueue
  refine ⟨{ xq with
      firstFackSeen := true
      awaitingAck := false
      rexmitq := []
      lastFackSerial := if pkt.usingSelacks then pkt.inq16 pkt.serialNum else xq.lastFackSerial },
    ⟨pkt.fragnum, if pkt.usingSelacks then pkt.inq16 pkt.serialNum else xq.lastFackSerial⟩, s,
    ⟨rfl, rfl, rfl⟩, rfl, hkept, hrexmitq, hcnt, ?_⟩
  unfold fackCommon
  dsimp only
  rw [hs]
  show (if 0 < pkt.len then _ else _) = _
  split
  · split
    · rw [Option.map_eq_bind]
      rfl
    · rfl
  · rfl

/-- A fack without a body acknowledges what its header says. -/
theorem fackCommon_of_bare {xq : Xmitq} (hxq : XmitqOk xq) (resvs : Resvs) {pkt : FackPkt}
    (hlen : pkt.len = 0) : ∃ r, fackCommon resvs xq pkt = some r ∧
      Handled xq pkt r (behind xq pkt.fragnum) ∧ r.wordsRead = 0 := by
  obtain ⟨xq', heard, s, ⟨hfirst, -⟩, -, hkept, hrexmitq, hcnt, heq⟩ := fackCommon_head hxq resvs pkt
  rw [if_neg (by omega)] at heq
  obtain ⟨hq, hr, hf⟩ := sizeBlast_frame (xq'.put (behind xq pkt.fragnum) s) s.windowIncr s.rexmitCnt
  refine ⟨_, heq, ⟨hf.trans hfirst, congrArg ptrs hq, ?_, ?_, ?_⟩, rfl⟩
  · rw [hr, Xmitq.put, hrexmitq]
    exact List.nil_sublist _
  · show s.rexmitCnt = BitVec.ofNat 32 (sizeBlast _ _ _).rexmitq.length
    rw [hr, Xmitq.put, hrexmitq]
    exact hcnt
  · show unsentPart _ (sizeBlast _ _ _).queue = _
    rw [hq]
    exact unsentPart_behind xq pkt.fragnum

/-- The routine calls `abort` on a body without a mask. -/
theorem fackCommon_of_old {xq : Xmitq} (hxq : XmitqOk xq) (resvs : Resvs) {pkt : FackPkt}
    (hlen : 0 < pkt.len) (hold : pkt.usingSelacks = false) : fackCommon resvs xq pkt = none := by
  obtain ⟨xq', heard, s, -, -, -, -, -, heq⟩ := fackCommon_head hxq resvs pkt
  rw [heq, if_pos hlen, if_neg (by rw [hold]; exact Bool.false_ne_true)]

/-- The first unsent element is behind the mask exactly when the mask is not met by it. -/
theorem onQueue_unmet_iff {xq : Xmitq} (hxq : XmitqOk xq) (pkt : FackPkt) :
    OnQueue xq.firstUnsent (unmet xq pkt) ↔ ∀ p, xq.firstUnsent = some p → p ∉ ptrs (met xq pkt) := by
  have hon := hxq.onQueue_behind pkt.fragnum
  have hnodup : (ptrs (behind xq pkt.fragnum)).Nodup :=
    hxq.nodup.sublist ((List.dropWhile_sublist _).map _)
  rw [← met_append_unmet, ptrs_append] at hnodup
  refine forall_congr' fun p => imp_congr_right fun hp => ?_
  have hmem := hon p hp
  rw [← met_append_unmet, ptrs_append, List.mem_append] at hmem
  constructor
  · intro hunmet hmet
    exact (List.disjoint_of_nodup_append hnodup) hmet hunmet
  · intro hmet
    exact hmem.resolve_left hmet

/-- What the routine does around the walk over the mask. -/
theorem fackCommon_selacks {xq : Xmitq} (hxq : XmitqOk xq) (resvs : Resvs) {pkt : FackPkt}
    (hmask : pkt.usingSelacks = true) :
    ∃ (heard : Heard) (s : Scan), heard.fragnum = pkt.fragnum ∧
      (s.kept = [] ∧ s.rexmitq = [] ∧ s.rexmitCnt = 0) ∧
      (∀ q' s' read,
        doSelectiveAck heard xq.firstUnsent pkt (behind xq pkt.fragnum) s = some ((q', s'), read) →
        ∃ r, fackCommon resvs xq pkt = some r ∧ r.xq.firstUnsent = xq.firstUnsent ∧
          r.xq.queue = s'.kept ++ q' ∧ r.xq.rexmitq = s'.rexmitq ∧ r.rexmitCnt = s'.rexmitCnt ∧
          r.wordsRead = read) ∧
      (doSelectiveAck heard xq.firstUnsent pkt (behind xq pkt.fragnum) s = none →
        fackCommon resvs xq pkt = none) := by
  have hparts : 12 < pkt.len ∧ pkt.vers = fackpktBodyVers := by
    simpa [FackPkt.usingSelacks] using hmask
  obtain ⟨xq', heard, s, ⟨hfirst, -⟩, hheard, hkept, hrexmitq, hcnt, heq⟩ :=
    fackCommon_head hxq resvs pkt
  rw [if_pos (by omega), if_pos hmask] at heq
  unfold doFackBody at heq
  rw [if_neg (not_not.mpr hparts.2), if_pos hparts.1, hfirst] at heq
  refine ⟨heard, s, hheard, ⟨hkept, hrexmitq, hcnt⟩, fun q' s' read hdo => ?_, fun hdo => ?_⟩
  · rw [hdo] at heq
    refine ⟨_, heq, ?_⟩
    obtain ⟨hq, hr, hf⟩ := sizeBlast_frame
      { adoptFragSize resvs (xq'.put (s'.kept ++ q') s') (fackFragSize xq' pkt) with
        windowSize := fackWindow (adoptFragSize resvs (xq'.put (s'.kept ++ q') s')
          (fackFragSize xq' pkt)) (pkt.inq16 pkt.windowSize) } s'.windowIncr s'.rexmitCnt
    obtain ⟨hq', hr', hf'⟩ := adoptFragSize_frame (xq'.put (s'.kept ++ q') s') resvs
      (fackFragSize xq' pkt)
    exact ⟨(hf.trans hf').trans hfirst, hq.trans hq', hr.trans hr', rfl, rfl⟩
  · rw [heq, hdo]
    rfl

/-- What is left of the queue when the walk and the scan behind it have sifted it. -/
theorem handled_of_sifted {xq : Xmitq} {pkt : FackPkt} {r : Result} {s s' : Scan}
    (hstart : s.kept = [] ∧ s.rexmitq = [] ∧ s.rexmitCnt = 0)
    (hmet : ∀ p, xq.firstUnsent = some p → p ∉ ptrs (met xq pkt))
    (hsift : Sifted s s' (met xq pkt ++ sentPart xq.firstUnsent (unmet xq pkt))
      (unacked xq pkt ++ sentPart xq.firstUnsent (unmet xq pkt)))
    (hfirst : r.xq.firstUnsent = xq.firstUnsent)
    (hqueue : r.xq.queue = s'.kept ++ unsentPart xq.firstUnsent (unmet xq pkt))
    (hrex : r.xq.rexmitq = s'.rexmitq) (hrcnt : r.rexmitCnt = s'.rexmitCnt) :
    Handled xq pkt r (unacked xq pkt ++ unmet xq pkt) ∧
      r.xq.rexmitq.Sublist
        (ptrs (unacked xq pkt ++ sentPart xq.firstUnsent (unmet xq pkt))) := by
  obtain ⟨hkept, hrexmitq, hcnt⟩ := hstart
  obtain ⟨again, hagain, hsub, hacnt⟩ := hsift.rexmitq
  rw [hrexmitq, List.nil_append] at hagain
  have hparts : sentPart xq.firstUnsent (unmet xq pkt)
      ++ unsentPart xq.firstUnsent (unmet xq pkt) = unmet xq pkt :=
    List.takeWhile_append_dropWhile
  have hagainSub : r.xq.rexmitq.Sublist
      (ptrs (unacked xq pkt ++ sentPart xq.firstUnsent (unmet xq pkt))) := by
    rw [hrex, hagain]
    exact hsub
  refine ⟨⟨hfirst, ?_, ?_, ?_, ?_⟩, hagainSub⟩
  · rw [hqueue, ptrs_append, hsift.kept, hkept, ptrs_nil, List.nil_append, ← ptrs_append,
      List.append_assoc, hparts]
  · refine hagainSub.trans ?_
    rw [ptrs_append, ptrs_append]
    refine (List.Sublist.refl _).append ?_
    exact (List.takeWhile_sublist _).map _
  · rw [hrcnt, hacnt, hcnt, hrex, hagain, zero_add]
  · -- neither what was met nor what the last scan went over is unsent
    rw [hqueue, ← unsentPart_behind xq pkt.fragnum, ← met_append_unmet, unsentPart_append hmet,
      unsentPart_append, unsentPart_unsentPart]
    intro p hp hmem
    rw [hsift.kept, hkept, ptrs_nil, List.nil_append, ptrs_append, List.mem_append] at hmem
    rcases hmem with hun | hscan
    · exact hmet p hp ((List.filter_sublist.map _).subset hun)
    · obtain ⟨xqe, hxqe, rfl⟩ := List.mem_map.mp hscan
      have := List.mem_takeWhile_imp hxqe
      rw [hp] at this
      simp at this

/-- A fack with a mask: the routine comes through if the mask does not get to the first unsent
fragment; it then leaves the fragments that neither the header nor the mask acknowledges. -/
theorem fackCommon_of_mask {xq : Xmitq} (hxq : XmitqOk xq) (resvs : Resvs) {pkt : FackPkt}
    (hmask : pkt.usingSelacks = true) :
    (OnQueue xq.firstUnsent (unmet xq pkt) → ∃ r, fackCommon resvs xq pkt = some r ∧
      Handled xq pkt r (unacked xq pkt ++ unmet xq pkt) ∧
      r.xq.rexmitq.Sublist (ptrs (unacked xq pkt ++ sentPart xq.firstUnsent (unmet xq pkt))) ∧
      ∀ k, k < r.wordsRead ↔ behind xq pkt.fragnum ≠ [] ∧ ReadsWord xq pkt k) ∧
    (¬ OnQueue xq.firstUnsent (unmet xq pkt) → fackCommon resvs xq pkt = none) := by
  obtain ⟨heard, s, hheard, hstart, hbody, hnone⟩ := fackCommon_selacks hxq resvs hmask
  by_cases hnil : behind xq pkt.fragnum = []
  · -- nothing is left for the mask
    have hmet : met xq pkt = [] := by
      rw [met, metBefore, hnil]
      rfl
    have hunmet : unmet xq pkt = [] := by
      rw [unmet, hnil, List.drop_nil]
    have hon : OnQueue xq.firstUnsent (unmet xq pkt) := by
      rw [hunmet, ← hnil]
      exact hxq.onQueue_behind pkt.fragnum
    refine ⟨fun _ => ?_, fun h => absurd hon h⟩
    obtain ⟨r, hr, hf, hq, hrex, hrcnt, hread⟩ := hbody [] s 0 (by rw [doSelectiveAck, if_pos hnil])
    have hsift : Sifted s s (met xq pkt ++ sentPart xq.firstUnsent (unmet xq pkt))
        (unacked xq pkt ++ sentPart xq.firstUnsent (unmet xq pkt)) := by
      rw [unacked, hmet, hunmet]
      exact Sifted.refl
    have hqueue : r.xq.queue = s.kept ++ unsentPart xq.firstUnsent (unmet xq pkt) := by
      rw [hq, hunmet]
      rfl
    obtain ⟨hhandled, hsub⟩ := handled_of_sifted hstart
      (by rw [hmet]; exact fun _ _ => List.not_mem_nil) hsift hf hqueue hrex hrcnt
    refine ⟨r, hr, hhandled, hsub, fun k => ?_⟩
    rw [hread]
    exact iff_of_false (Nat.not_lt_zero k) fun h => h.1 hnil
  · obtain ⟨hon, hoff⟩ := doSelectiveAck_spec (s := s) hheard hnil
    refine ⟨fun h => ?_, fun h => hnone (hoff h)⟩
    obtain ⟨s', read, hdo, hsift, hread⟩ := hon h
    obtain ⟨r, hr, hf, hq, hrex, hrcnt, hwords⟩ := hbody _ s' read hdo
    obtain ⟨hhandled, hsub⟩ := handled_of_sifted hstart ((onQueue_unmet_iff hxq pkt).mp h) hsift hf
      hq hrex hrcnt
    refine ⟨r, hr, hhandled, hsub, fun k => ?_⟩
    rw [hwords, hread]
    exact (and_iff_right hnil).symm

/-! ### Safety -/

/-- The body of a fack starts with 16 bytes; word `i` of the mask ends 4 bytes further. -/
def fackBodyEnd (i : ℕ) : ℕ := 20 + 4 * i

/-- The routine comes through: it does not call `abort`, it does not read through a null pointer,
the words of the mask that it reads were received, and the first unsent element is still queued. -/
def FackSafe (resvs : Resvs) (xq : Xmitq) (pkt : FackPkt) : Prop :=
  ∃ r, fackCommon resvs xq pkt = some r ∧ (∀ i < r.wordsRead, fackBodyEnd i ≤ pkt.len) ∧
    OnQueue r.xq.firstUnsent r.xq.queue

/-- A fack without a body is harmless.  One with a body has to have a mask; its bits up to the last one
that is set do not name the first unsent fragment, and the words that are gone through before the
queue is used up are there. -/
def FackFits (xq : Xmitq) (pkt : FackPkt) : Prop :=
  pkt.len = 0 ∨ pkt.usingSelacks = true ∧ (∀ p, xq.firstUnsent = some p → p ∉ ptrs (met xq pkt)) ∧
    (behind xq pkt.fragnum ≠ [] → ∀ k, ReadsWord xq pkt k → fackBodyEnd k ≤ pkt.len)

/-- **A fack is handled safely if and only if it fits**, whatever it says and whatever is queued. -/
theorem fackSafe_iff {xq : Xmitq} (hxq : XmitqOk xq) (resvs : Resvs) (pkt : FackPkt) :
    FackSafe resvs xq pkt ↔ FackFits xq pkt := by
  rcases Nat.eq_zero_or_pos pkt.len with hlen | hlen
  · refine iff_of_true ?_ (.inl hlen)
    obtain ⟨r, hr, hhandled, hread⟩ := fackCommon_of_bare hxq resvs hlen
    refine ⟨r, hr, by rw [hread]; exact fun i hi => absurd hi (Nat.not_lt_zero i), ?_⟩
    rw [hhandled.firstUnsent]
    exact onQueue_of_ptrs hhandled.queue (hxq.onQueue_behind pkt.fragnum)
  · rw [FackFits, or_iff_right (by omega)]
    cases hmask : pkt.usingSelacks with
    | false =>
      refine iff_of_false ?_ fun h => absurd h.1 Bool.false_ne_true
      rintro ⟨r, hr, -⟩
      rw [fackCommon_of_old hxq resvs hlen hmask] at hr
      cases hr
    | true =>
      obtain ⟨hon, hoff⟩ := fackCommon_of_mask hxq resvs hmask
      rw [← onQueue_unmet_iff hxq pkt]
      by_cases hun : OnQueue xq.firstUnsent (unmet xq pkt)
      · obtain ⟨r, hr, hhandled, -, hread⟩ := hon hun
        have hqueued : OnQueue r.xq.firstUnsent r.xq.queue := by
          rw [hhandled.firstUnsent]
          exact onQueue_of_ptrs hhandled.queue (onQueue_append_left hun)
        constructor
        · rintro ⟨r', hr', hwords, -⟩
          rw [hr] at hr'
          cases hr'
          exact ⟨rfl, hun, fun hne k hk => hwords k ((hread k).mpr ⟨hne, hk⟩)⟩
        · rintro ⟨-, -, hwords⟩
          refine ⟨r, hr, fun i hi => ?_, hqueued⟩
          obtain ⟨hne, hi⟩ := (hread i).mp hi
          exact hwords hne i hi
      · refine iff_of_false ?_ fun h => hun h.2.1
        rintro ⟨r, hr, -⟩
        rw [hoff hun] at hr
        cases hr

/-- The queue of a call that has sent fragment 0 of two. -/
def twoFrags : Xmitq :=
  { queue := [{ ptr := 1, fragnum := 0, serialNum := 0, inCwindow := true }, { ptr := 2, fragnum := 1 }]
    firstUnsent := some 2
    nextFragnum := 2
    cwindowSize := 1 }

theorem xmitqOk_twoFrags : XmitqOk twoFrags where
  onQueue p hp := by
    cases hp
    decide
  nodup := by decide

/-- A fack for fragment 0 with a whole body. -/
theorem fackSafe_iff_whole : FackSafe {} twoFrags { fragnum := 0, len := 20 } :=
  (fackSafe_iff xmitqOk_twoFrags {} _).mpr
    (.inr ⟨by decide, fun p _ => by decide +revert, fun _ k hk => absurd hk.1 (Nat.not_lt_zero k)⟩)

/-- A fack for fragment 0 with a body of 12 bytes, as there were before the mask. -/
theorem not_fackSafe : ¬ FackSafe {} twoFrags { fragnum := 0, len := 12 } := by
  rintro ⟨r, hr, -⟩
  have hnone : fackCommon {} twoFrags { fragnum := 0, len := 12 } = none := rfl
  rw [hnone] at hr
  cases hr

end Selack

end Dg
