/-
The size of the next blast (the end of `rpc__dg_fack_common` in dglsn.c) and the sending of it
(`rpc__dg_call_xmit` in dgcall.c).

The blast is not to be larger than what there is to send: the fragments that are to be sent again, and
the unsent ones.  These are counted by a difference of fragment numbers, of which one is cast to a
signed number of 16 bits.

* `readyToGo_eq` — the count is right except where both numbers are in the upper half;
* `xmitLoop_sent` — a blast sends what there is, and its last packet asks for a fack;
* `blastSound_iff` — the numbers of the first unsent fragment and of the next one for which the blast
  never promises a packet that is not there; `not_blastSound` is where it does.
-/
import FreeDce.Dg.FackSafe

namespace Dg

namespace Selack

variable {firstUnsent : Option ℕ} {queue : List XmitqElt}

/-! ### Sending a blast -/

/-- A packet of a blast; `asksFack` says that it counts as a new outstanding fack request. -/
structure Sent where
  ptr : ℕ
  asksFack : Bool
deriving DecidableEq

/-- `window_size_to_freqs_out`. -/
def windowSizeToFreqsOut : List ℕ := [0, 1, 2, 2, 2, 3, 3, 3, 3, 3, 4, 4, 4, 4, 4, 4, 4]

/-- The packet within the blast that asks for a fack besides the last one, 0 if there is none. -/
def extraFack (xq : Xmitq) : ℕ :=
  let freqsTotal := (if 16 < xq.windowSize.toNat then xq.windowSize.toNat / 4
    else windowSizeToFreqsOut.getD xq.windowSize.toNat 0) % 256
  if xq.freqsOut.toNat + 1 < freqsTotal then xq.blastSize.toNat / 2 else 0

/-- Packet `numSent` of the blast is sent. -/
def xmitElt (asks : Bool) (ptr : ℕ) (xq : Xmitq) : Xmitq :=
  { xq with
    queue := xq.queue.map fun xqe =>
      if xqe.ptr = ptr then
        { xqe with
          flags := if xq.isFrag then
              if asks then xqe.flags &&& ~~~noFack else xqe.flags ||| noFack
            else xqe.flags
          inCwindow := true
          serialNum := xq.nextSerialNum }
      else xqe
    nextSerialNum := xq.nextSerialNum + 1
    freqsOut := if asks then xq.freqsOut + 1 else xq.freqsOut }

/-- The loop of `rpc__dg_call_xmit`: first the fragments to send again, then the unsent ones. -/
def xmitLoop (blast extra : ℕ) : ℕ → ℕ → List ℕ → List ℕ → Xmitq → Xmitq × List Sent
  | 0, _, _, _, xq => (xq, [])
  | n + 1, numSent, ptr :: again, unsent, xq =>
    let asks := !xq.isFrag || numSent = extra || numSent = blast
    let r := xmitLoop blast extra n (numSent + 1) again unsent (xmitElt asks ptr xq)
    (r.1, ⟨ptr, asks⟩ :: r.2)
  | n + 1, numSent, [], ptr :: unsent, xq =>
    let asks := !xq.isFrag || numSent = extra || numSent = blast
    let r := xmitLoop blast extra n (numSent + 1) [] unsent
      { xmitElt asks ptr xq with firstUnsent := unsent.head? }
    (r.1, ⟨ptr, asks⟩ :: r.2)
  | _ + 1, _, [], [], xq => (xq, [])

/-- `rpc__dg_call_xmit`. -/
def callXmit (xq : Xmitq) : Xmitq × List Sent :=
  let blast := xq.blastSize.toNat
  let r := xmitLoop blast (extraFack xq) blast 1 xq.rexmitq
    (ptrs (unsentPart xq.firstUnsent xq.queue)) xq
  let cwindow := r.1.cwindowSize + BitVec.ofNat 16 r.2.length
  ({ r.1 with
      cwindowSize := cwindow
      highCwindow := if r.1.highCwindow.toNat < cwindow.toNat then cwindow.setWidth 8
        else r.1.highCwindow
      rexmitq := []
      blastSize := 0 }, r.2)

/-- A blast sends as many packets as there are, and if there are enough the last one asks for a
fack. -/
theorem xmitLoop_sent {blast extra : ℕ} (n numSent : ℕ) (again unsent : List ℕ) (xq : Xmitq) :
    (xmitLoop blast extra n numSent again unsent xq).2.length
        = min n (again.length + unsent.length) ∧
      (n ≤ again.length + unsent.length → numSent + n = blast + 1 →
        ∀ last ∈ (xmitLoop blast extra n numSent again unsent xq).2.getLast?,
          last.asksFack = true) := by
  induction n generalizing numSent again unsent xq with
  | zero =>
    refine ⟨by rw [xmitLoop, Nat.zero_min]; rfl, fun _ _ last hlast => ?_⟩
    rw [xmitLoop] at hlast
    cases hlast
  | succ n ih =>
    -- one packet, and the rest of the blast
    have hstep : ∀ (ptr : ℕ) (again' unsent' : List ℕ) (xq' : Xmitq) (asks : Bool),
        (numSent = blast → asks = true) →
        again'.length + unsent'.length + 1 = again.length + unsent.length →
        let r := xmitLoop blast extra n (numSent + 1) again' unsent' xq'
        ((⟨ptr, asks⟩ :: r.2 : List Sent).length = min (n + 1) (again.length + unsent.length) ∧
          (n + 1 ≤ again.length + unsent.length → numSent + (n + 1) = blast + 1 →
            ∀ last ∈ (⟨ptr, asks⟩ :: r.2 : List Sent).getLast?, last.asksFack = true)) := by
      intro ptr again' unsent' xq' asks hasks hlen
      obtain ⟨hcount, hlast⟩ := ih (numSent + 1) again' unsent' xq'
      refine ⟨by rw [List.length_cons, hcount]; omega, fun hmany hblast last hmem => ?_⟩
      cases hrest : (xmitLoop blast extra n (numSent + 1) again' unsent' xq').2 with
      | nil =>
        rw [hrest] at hcount hmem
        obtain rfl : (⟨ptr, asks⟩ : Sent) = last := by simpa using hmem
        have hn : n = 0 := by
          rw [List.length_nil] at hcount
          omega
        exact hasks (by omega)
      | cons head tail =>
        rw [hrest, List.getLast?_cons_cons] at hmem
        rw [hrest] at hlast
        exact hlast (by omega) (by omega) last hmem
    cases again with
    | cons ptr again =>
      exact hstep ptr again unsent _ _ (fun h => by simp [h]) (by simp; omega)
    | nil =>
      cases unsent with
      | cons ptr unsent =>
        exact hstep ptr [] unsent _ _ (fun h => by simp [h]) (by simp)
      | nil => exact ⟨by simp [xmitLoop], fun hmany _ => by simp at hmany⟩

/-! ### What there is to send -/

/-- The number of the first unsent fragment. -/
def firstUnsentNum (xq : Xmitq) : Option (BitVec 16) :=
  (unsentPart xq.firstUnsent xq.queue).head?.map XmitqElt.fragnum

/-- What the queue has by itself: its unsent fragments are numbered up to the next one, and the limit of
the blast size is not above its maximum. -/
structure Numbered (xq : Xmitq) : Prop extends XmitqOk xq where
  next : ∀ a, firstUnsentNum xq = some a →
    xq.nextFragnum = a + BitVec.ofNat 16 (unsentPart xq.firstUnsent xq.queue).length
  few : (unsentPart xq.firstUnsent xq.queue).length < 2 ^ 15
  short : xq.queue.length < 2 ^ 31
  limit : xq.maxBlastSize.toNat ≤ maxBlastSize

/-- The cast loses track where the first unsent number is in the upper half, and the next one has not
wrapped. -/
def UpperHalf (a next : BitVec 16) : Prop := 2 ^ 15 ≤ a.toNat ∧ a.toNat < next.toNat

instance (a next : BitVec 16) : Decidable (UpperHalf a next) := inferInstanceAs (Decidable (_ ∧ _))

/-- `next_fragnum - (signed16) first_unsent->fragnum`. -/
theorem signedDiff_eq {a next : BitVec 16} {u : ℕ} (hnext : next = a + BitVec.ofNat 16 u)
    (hu : u < 2 ^ 15) (hpos : 0 < u) :
    (next.setWidth 32 - a.signExtend 32 : BitVec 32).toNat =
      if UpperHalf a next then u + 2 ^ 16 else u := by
  have hlt := a.isLt
  have hnextNat : next.toNat = (a.toNat + u) % 2 ^ 16 := by
    rw [hnext, BitVec.toNat_add, BitVec.toNat_ofNat]
    omega
  have hsigned : (a.signExtend 32).toNat = if a.toNat < 2 ^ 15 then a.toNat
      else a.toNat + (2 ^ 32 - 2 ^ 16) := by
    rw [BitVec.toNat_signExtend, BitVec.toNat_setWidth, BitVec.msb_eq_decide]
    split <;> split <;> simp_all <;> omega
  have hwide : (next.setWidth 32).toNat = next.toNat := by
    rw [BitVec.toNat_setWidth]
    omega
  have hiff : UpperHalf a next ↔ 2 ^ 15 ≤ a.toNat ∧ a.toNat < next.toNat := Iff.rfl
  rw [BitVec.toNat_sub, hsigned, hwide, if_congr hiff rfl rfl]
  split <;> split <;> omega

/-- The element that the size is computed from is the first unsent one. -/
theorem elt?_firstUnsent (xq : Xmitq) :
    xq.firstUnsent.bind xq.elt? = (unsentPart xq.firstUnsent xq.queue).head? ∨
      xq.firstUnsent = none := by
  cases h : xq.firstUnsent with
  | none => exact .inr rfl
  | some p =>
    refine .inl ?_
    have hnot : (fun xqe : XmitqElt => decide (some p ≠ some xqe.ptr))
        = fun xqe => !decide (xqe.ptr = p) := by
      funext xqe
      simp [eq_comm]
    rw [Option.bind_some, Xmitq.elt?, unsentPart, hnot, List.find?_eq_head?_dropWhile_not]

theorem unsentPart_none : unsentPart none queue = [] := by
  induction queue with
  | nil => rfl
  | cons xqe rest ih =>
    rw [unsentPart, List.dropWhile_cons_of_pos (by simp)]
    exact ih

/-- The count of what is ready, for a queue with `again` fragments to be sent again. -/
theorem readyToGo_eq (xq : Xmitq) {again : ℕ} (hagain : again < 2 ^ 31)
    (hnext : ∀ a, firstUnsentNum xq = some a →
      xq.nextFragnum = a + BitVec.ofNat 16 (unsentPart xq.firstUnsent xq.queue).length)
    (hfew : (unsentPart xq.firstUnsent xq.queue).length < 2 ^ 15) :
    (readyToGo xq (BitVec.ofNat 32 again)).toNat =
      again + (unsentPart xq.firstUnsent xq.queue).length +
        if ∃ a, firstUnsentNum xq = some a ∧ UpperHalf a xq.nextFragnum then 2 ^ 16 else 0 := by
  have hnil : (unsentPart xq.firstUnsent xq.queue).head? = none →
      xq.firstUnsent.bind xq.elt? = none := by
    intro h
    rcases elt?_firstUnsent xq with heq | hnone
    · rw [heq, h]
    · rw [hnone]
      rfl
  cases hunsent : unsentPart xq.firstUnsent xq.queue with
  | nil =>
    have hnum : firstUnsentNum xq = none := by
      rw [firstUnsentNum, hunsent]
      rfl
    rw [readyToGo, hnil (by rw [hunsent]; rfl), hnum, if_neg (by rintro ⟨a, ha, -⟩; cases ha),
      BitVec.toNat_ofNat]
    show again % 2 ^ 32 = again + 0 + 0
    omega
  | cons xqe rest =>
    have hnum : firstUnsentNum xq = some xqe.fragnum := by
      rw [firstUnsentNum, hunsent]
      rfl
    have helt : xq.firstUnsent.bind xq.elt? = some xqe := by
      rcases elt?_firstUnsent xq with heq | hnone
      · rw [heq, hunsent]
        rfl
      · rw [hnone, unsentPart_none] at hunsent
        cases hunsent
    have hn := hnext _ hnum
    rw [hunsent] at hn hfew
    have hdiff := signedDiff_eq hn hfew (Nat.succ_pos _)
    have hiff : (∃ a, firstUnsentNum xq = some a ∧ UpperHalf a xq.nextFragnum) ↔
        UpperHalf xqe.fragnum xq.nextFragnum := by
      rw [hnum]
      simp
    rw [readyToGo, helt]
    show (BitVec.ofNat 32 again + _).toNat = _
    rw [BitVec.toNat_add, hdiff, BitVec.toNat_ofNat, if_congr hiff rfl rfl]
    split <;> omega

/-! ### The sizes -/

/-- The blast that the routine settles on. -/
theorem sizeBlast_blastSize (xq : Xmitq) (windowIncr rexmitCnt : BitVec 32) :
    (sizeBlast xq windowIncr rexmitCnt).blastSize.toNat
        = min (readyToGo xq rexmitCnt).toNat (blastTarget xq windowIncr) ∧
      blastTarget xq windowIncr ≤ max xq.maxBlastSize.toNat 2 ∧
      xq.cwindowSize.toNat + blastTarget xq windowIncr
        ≤ max xq.windowSize.toNat xq.cwindowSize.toNat ∧
      (sizeBlast xq windowIncr rexmitCnt).cwindowSize = xq.cwindowSize ∧
      (sizeBlast xq windowIncr rexmitCnt).windowSize = xq.windowSize := by
  have hlt := xq.maxBlastSize.isLt
  have htarget : blastTarget xq windowIncr ≤ max xq.maxBlastSize.toNat 2 := by
    rw [blastTarget]
    split <;> omega
  refine ⟨?_, htarget, ?_, ?_, ?_⟩
  · show (BitVec.ofNat 8 _).toNat = _
    rw [BitVec.toNat_ofNat]
    split <;> omega
  · rw [blastTarget]
    split <;> omega
  · show (raiseMaxBlast (noteLoss xq rexmitCnt)).cwindowSize = _
    unfold raiseMaxBlast noteLoss
    dsimp only
    split_ifs <;> rfl
  · show (raiseMaxBlast (noteLoss xq rexmitCnt)).windowSize = _
    unfold raiseMaxBlast noteLoss
    dsimp only
    split_ifs <;> rfl

section Frame

theorem doFackBody_frame {fack : Heard} {resvs : Resvs} {xq xq' : Xmitq} {pkt : FackPkt}
    {s s' : Scan} {read : ℕ} (h : doFackBody fack resvs xq pkt queue s = some (xq', s', read)) :
    xq'.maxBlastSize = xq.maxBlastSize ∧ xq'.nextFragnum = xq.nextFragnum := by
  have hadopt : ∀ (xq : Xmitq) (size : BitVec 32),
      (adoptFragSize resvs xq size).maxBlastSize = xq.maxBlastSize ∧
        (adoptFragSize resvs xq size).nextFragnum = xq.nextFragnum := by
    intro xq size
    unfold adoptFragSize
    split_ifs <;> exact ⟨rfl, rfl⟩
  unfold doFackBody at h
  split at h
  · cases h
    exact ⟨rfl, rfl⟩
  · dsimp only at h
    split at h
    · obtain ⟨⟨⟨q, s₁⟩, n⟩, -, hrest⟩ := Option.bind_eq_some_iff.mp h
      cases hrest
      exact hadopt _ _
    · cases h
      exact hadopt _ _

/-- The size is computed from the queue as the fack has left it. -/
theorem fackCommon_sizes {xq : Xmitq} (hxq : XmitqOk xq) {resvs : Resvs} {pkt : FackPkt} {r : Result}
    (hr : fackCommon resvs xq pkt = some r) : ∃ xq' windowIncr,
      r.xq = sizeBlast xq' windowIncr r.rexmitCnt ∧ xq'.maxBlastSize = xq.maxBlastSize ∧
      xq'.nextFragnum = xq.nextFragnum := by
  obtain ⟨xq', heard, s, ⟨-, hnext, hmax⟩, -, -, -, -, heq⟩ := fackCommon_head hxq resvs pkt
  rw [heq] at hr
  split at hr
  · split at hr
    · obtain ⟨⟨xq₁, s₁, read⟩, hbody, heq₁⟩ := Option.map_eq_some_iff.mp hr
      obtain rfl := heq₁
      obtain ⟨hmax₁, hnext₁⟩ := doFackBody_frame hbody
      exact ⟨xq₁, s₁.windowIncr, rfl, hmax₁.trans hmax, hnext₁.trans hnext⟩
    · cases hr
  · cases hr
    exact ⟨_, s.windowIncr, rfl, hmax, hnext⟩

end Frame

/-- Whatever the fack says, if the routine comes through it has kept a part of the queue. -/
theorem fackCommon_handled {xq : Xmitq} (hxq : XmitqOk xq) {resvs : Resvs} {pkt : FackPkt}
    {r : Result} (hr : fackCommon resvs xq pkt = some r) :
    ∃ stays, Handled xq pkt r stays ∧ stays.Sublist xq.queue := by
  rcases Nat.eq_zero_or_pos pkt.len with hlen | hlen
  · obtain ⟨r', hr', hhandled, -⟩ := fackCommon_of_bare hxq resvs hlen
    rw [hr] at hr'
    cases hr'
    exact ⟨_, hhandled, List.dropWhile_sublist _⟩
  · cases hmask : pkt.usingSelacks with
    | false =>
      rw [fackCommon_of_old hxq resvs hlen hmask] at hr
      cases hr
    | true =>
      obtain ⟨hon, hoff⟩ := fackCommon_of_mask hxq resvs hmask
      by_cases hun : OnQueue xq.firstUnsent (unmet xq pkt)
      · obtain ⟨r', hr', hhandled, -⟩ := hon hun
        rw [hr] at hr'
        cases hr'
        refine ⟨_, hhandled, ?_⟩
        have hsub : (unacked xq pkt ++ unmet xq pkt).Sublist (met xq pkt ++ unmet xq pkt) :=
          List.filter_sublist.append (List.Sublist.refl _)
        rw [met_append_unmet] at hsub
        exact hsub.trans (List.dropWhile_sublist _)
      · rw [hoff hun] at hr
        cases hr

/-! ### The blast -/

/-- The blast after a fack is not larger than what there is to send, than the limit, or than the
window; and the transmission that follows sends all of it, and asks for a fack at its end. -/
structure BlastOk (xq : Xmitq) (r : Result) : Prop where
  ready : r.xq.blastSize.toNat
    ≤ r.xq.rexmitq.length + (unsentPart r.xq.firstUnsent r.xq.queue).length
  limit : r.xq.blastSize.toNat ≤ max xq.maxBlastSize.toNat 2
  window : r.xq.cwindowSize.toNat + r.xq.blastSize.toNat
    ≤ max r.xq.windowSize.toNat r.xq.cwindowSize.toNat
  sends : (callXmit r.xq).2.length = r.xq.blastSize.toNat
  asks : ∀ last ∈ (callXmit r.xq).2.getLast?, last.asksFack = true

/-- There are fewer unsent fragments than a blast may have, their numbers are in the upper half, and
none of them has wrapped. -/
def LosesCount (a next : BitVec 16) : Prop :=
  UpperHalf a next ∧ next.toNat < a.toNat + maxBlastSize

/-- Otherwise there is at least a blast of unsent fragments in the upper half. -/
theorem maxBlastSize_le_of_upperHalf {a next : BitVec 16} {u : ℕ}
    (hnext : next = a + BitVec.ofNat 16 u) (hup : UpperHalf a next)
    (hcount : ¬ LosesCount a next) : maxBlastSize ≤ u := by
  have hfar : a.toNat + maxBlastSize ≤ next.toNat := not_lt.mp fun hnear => hcount ⟨hup, hnear⟩
  have hlt : a.toNat < next.toNat := hup.2
  have hmod : next.toNat = (a.toNat + u) % 2 ^ 16 := by
    rw [hnext, BitVec.toNat_add, BitVec.toNat_ofNat, Nat.add_mod_mod]
  rcases Nat.lt_or_ge (a.toNat + u) (2 ^ 16) with hsmall | hwrap
  · rw [Nat.mod_eq_of_lt hsmall] at hmod
    omega
  · -- the number has wrapped, and is the larger one all the same
    rw [Nat.mod_eq_sub_mod hwrap] at hmod
    have hle := Nat.mod_le (a.toNat + u - 2 ^ 16) (2 ^ 16)
    omega

theorem blastOk_of_count {xq : Xmitq} (hxq : Numbered xq) {resvs : Resvs} {pkt : FackPkt}
    {r : Result} (hr : fackCommon resvs xq pkt = some r)
    (hcount : ∀ a, firstUnsentNum xq = some a → ¬ LosesCount a xq.nextFragnum) : BlastOk xq r := by
  obtain ⟨stays, hhandled, hsub⟩ := fackCommon_handled hxq.toXmitqOk hr
  obtain ⟨xq', windowIncr, hsize, hmax, hnext⟩ := fackCommon_sizes hxq.toXmitqOk hr
  obtain ⟨hq, hrex, hfirst⟩ := sizeBlast_frame xq' windowIncr r.rexmitCnt
  obtain ⟨hblast, hlimit, hwindow, hcw, hw⟩ := sizeBlast_blastSize xq' windowIncr r.rexmitCnt
  rw [← hsize] at hq hrex hfirst hblast hcw hw
  -- the unsent fragments are those from before the fack
  have hunsent : unsentPart r.xq.firstUnsent r.xq.queue = unsentPart xq.firstUnsent xq.queue := by
    rw [hhandled.firstUnsent]
    exact hhandled.unsent
  have hunsent' : unsentPart xq'.firstUnsent xq'.queue = unsentPart xq.firstUnsent xq.queue := by
    rw [← hfirst, ← hq]
    exact hunsent
  have hnum : firstUnsentNum xq' = firstUnsentNum xq := by
    rw [firstUnsentNum, firstUnsentNum, hunsent']
  have hagain : r.xq.rexmitq.length < 2 ^ 31 := by
    have h := hhandled.rexmitq.length_le
    rw [ptrs, List.length_map] at h
    have := hsub.length_le
    have := hxq.short
    omega
  have hready := readyToGo_eq xq' hagain
    (fun a ha => by rw [hnext, hunsent']; exact hxq.next a (hnum ▸ ha))
    (by rw [hunsent']; exact hxq.few)
  rw [← hhandled.rexmitCnt, hunsent', hnum, hnext] at hready
  have hle : r.xq.blastSize.toNat
      ≤ r.xq.rexmitq.length + (unsentPart r.xq.firstUnsent r.xq.queue).length := by
    rw [hblast, hready, hunsent]
    split
    · rename_i hup
      obtain ⟨a, ha, hup⟩ := hup
      calc min _ (blastTarget xq' windowIncr)
        _ ≤ max xq.maxBlastSize.toNat 2 := (min_le_right _ _).trans (hmax ▸ hlimit)
        _ ≤ maxBlastSize := max_le hxq.limit (by decide)
        _ ≤ (unsentPart xq.firstUnsent xq.queue).length :=
          maxBlastSize_le_of_upperHalf (hxq.next a ha) hup (hcount a ha)
        _ ≤ _ := Nat.le_add_left _ _
    · exact min_le_left _ _
  obtain ⟨hsent, hasks⟩ := @xmitLoop_sent r.xq.blastSize.toNat (extraFack r.xq)
    r.xq.blastSize.toNat 1 r.xq.rexmitq (ptrs (unsentPart r.xq.firstUnsent r.xq.queue)) r.xq
  have hlen : (ptrs (unsentPart r.xq.firstUnsent r.xq.queue)).length
      = (unsentPart r.xq.firstUnsent r.xq.queue).length := List.length_map _
  rw [hlen] at hsent hasks
  refine ⟨hle, ?_, ?_, ?_, hasks hle (Nat.add_comm 1 _)⟩
  · rw [hblast, ← hmax]
    exact (min_le_right _ _).trans hlimit
  · rw [hcw, hw, hblast]
    exact (Nat.add_le_add_left (min_le_right _ _) _).trans hwindow
  · rw [callXmit]
    exact hsent.trans (by omega)

/-! ### Where it goes wrong -/

/-- Nothing but `u` unsent fragments, from number `a` on, and a blast of 8 that was not sent yet. -/
def unsentOnly (a : BitVec 16) (u : ℕ) : Xmitq :=
  { queue := (List.range u).map fun i => { ptr := i, fragnum := a + BitVec.ofNat 16 i }
    firstUnsent := some 0
    nextFragnum := a + BitVec.ofNat 16 u
    blastSize := 8
    maxBlastSize := 8 }

theorem unsentPart_unsentOnly (a : BitVec 16) {u : ℕ} (hu : 0 < u) :
    unsentPart (unsentOnly a u).firstUnsent (unsentOnly a u).queue = (unsentOnly a u).queue := by
  obtain ⟨u, rfl⟩ := Nat.exists_eq_succ_of_ne_zero hu.ne'
  unfold unsentOnly
  dsimp only
  rw [List.range_succ_eq_map, List.map_cons]
  exact List.dropWhile_cons_of_neg (by simp)

theorem numbered_unsentOnly (a : BitVec 16) {u : ℕ} (hpos : 0 < u) (hu : u < 8) :
    Numbered (unsentOnly a u) ∧ firstUnsentNum (unsentOnly a u) = some a := by
  have hlen : (unsentOnly a u).queue.length = u := by
    simp [unsentOnly]
  have hnum : firstUnsentNum (unsentOnly a u) = some a := by
    rw [firstUnsentNum, unsentPart_unsentOnly a hpos]
    obtain ⟨u, rfl⟩ := Nat.exists_eq_succ_of_ne_zero hpos.ne'
    rw [unsentOnly, List.range_succ_eq_map, List.map_cons, List.head?_cons, Option.map_some]
    simp
  refine ⟨{ onQueue := ?_, nodup := ?_, next := ?_, few := ?_, short := ?_, limit := ?_ }, hnum⟩
  · intro p hp
    cases hp
    simpa [ptrs, unsentOnly] using hpos
  · rw [ptrs, unsentOnly, List.map_map]
    exact (List.nodup_range).map (fun i j h => h)
  · intro b hb
    rw [hnum] at hb
    cases hb
    rw [unsentPart_unsentOnly a hpos, hlen]
    rfl
  · rw [unsentPart_unsentOnly a hpos, hlen]
    omega
  · rw [hlen]
    omega
  · exact le_rfl

/-- A fack without a body, for what is before the first fragment. -/
theorem fackCommon_unsentOnly (a : BitVec 16) {u : ℕ} (hpos : 0 < u) :
    ∃ r, fackCommon {} (unsentOnly a u) { fragnum := a - 1, len := 0 } = some r ∧
      r.xq.blastSize.toNat = min (readyToGo (unsentOnly a u) 0).toNat 8 ∧ r.xq.rexmitq = [] ∧
      r.xq.queue = (unsentOnly a u).queue := by
  obtain ⟨u, rfl⟩ := Nat.exists_eq_succ_of_ne_zero hpos.ne'
  have hrun : fackCommon {} (unsentOnly a (u + 1)) { fragnum := a - 1, len := 0 }
      = some ⟨sizeBlast (unsentOnly a (u + 1)) 0 0, 0, 0⟩ := by
    unfold fackCommon unsentOnly
    rw [List.range_succ_eq_map, List.map_cons]
    rfl
  obtain ⟨hq, hrex, -⟩ := sizeBlast_frame (unsentOnly a (u + 1)) 0 0
  exact ⟨_, hrun, (sizeBlast_blastSize _ 0 0).1, hrex, hq⟩

/-- **A blast is never larger than what there is**, for every queue with these numbers and every fack,
if and only if the numbers are not such that the count is lost. -/
theorem blastSound_iff (first : Option (BitVec 16)) (next : BitVec 16) :
    (∀ xq, Numbered xq → firstUnsentNum xq = first → xq.nextFragnum = next →
      ∀ resvs pkt r, fackCommon resvs xq pkt = some r → BlastOk xq r) ↔
    ∀ a, first = some a → ¬ LosesCount a next := by
  constructor
  · rintro h a rfl ⟨⟨hhalf, hlt⟩, hnear⟩
    rw [maxBlastSize] at hnear
    obtain ⟨hnumbered, hnum⟩ :=
      numbered_unsentOnly a (u := next.toNat - a.toNat) (by omega) (by omega)
    have hnext : (unsentOnly a (next.toNat - a.toNat)).nextFragnum = next := by
      apply BitVec.eq_of_toNat_eq
      rw [unsentOnly, BitVec.toNat_add, BitVec.toNat_ofNat]
      have := next.isLt
      omega
    obtain ⟨r, hr, hblast, hrex, hq⟩ :=
      fackCommon_unsentOnly a (u := next.toNat - a.toNat) (by omega)
    have hready := (h _ hnumbered hnum hnext _ _ r hr).ready
    have hcount := @readyToGo_eq (unsentOnly a (next.toNat - a.toNat)) 0 (by decide)
      hnumbered.next hnumbered.few
    rw [if_pos ⟨a, hnum, by rw [hnext]; exact ⟨hhalf, hlt⟩⟩] at hcount
    have hfirst : (unsentPart r.xq.firstUnsent r.xq.queue).length ≤ next.toNat - a.toNat := by
      rw [hq]
      refine ((List.dropWhile_sublist _).length_le).trans ?_
      simp [unsentOnly]
    rw [hblast, hrex, List.length_nil] at hready
    have hbig : 8 ≤ (readyToGo (unsentOnly a (next.toNat - a.toNat)) 0).toNat := by
      show 8 ≤ (readyToGo _ (BitVec.ofNat 32 0)).toNat
      rw [hcount]
      omega
    omega
  · rintro h xq hxq rfl rfl resvs pkt r hr
    exact blastOk_of_count hxq hr h

/-- One fragment, number `0x8000`, is queued; the next blast is to have 8. -/
theorem not_blastSound : ∃ r, Numbered (unsentOnly 0x8000 1) ∧
    fackCommon {} (unsentOnly 0x8000 1) { fragnum := 0x7fff, len := 0 } = some r ∧
      ¬ BlastOk (unsentOnly 0x8000 1) r := by
  obtain ⟨hnumbered, -⟩ := numbered_unsentOnly 0x8000 (u := 1) (by decide) (by decide)
  refine ⟨_, hnumbered, rfl, fun h => ?_⟩
  exact absurd h.ready (by decide)

end Selack

end Dg
