/-
The transmit queue (dgxq.c, dgcall.c, dglsn.c).

Five routines edit the queue, the list of what is to be sent again, and the counters of the packets
in the congestion window and of the outstanding fack requests.

* `Counts` — what the loops over a fack keep; `fackCommon_counts` — what a fack leaves;
* `callXmit_spec` — what a blast does to the queue, and what it adds to the counters;
* `step_spec` — what each routine keeps;
* `queue_kept_iff` — the runs in which the queue is in order at all times; `mask_past_unsent` — two
  in which it is not.
-/
import FreeDce.Dg.BlastSize
import FreeDce.Lib.Runs

namespace Dg

namespace XmitQueue

open Selack

/-! ### The routines -/

/-- The queue of a call, with its last element.  Elements are numbered as they are allocated;
`sent` says which ones were handed to `rpc__dg_xmitq_elt_xmit`. -/
structure State where
  xq : Xmitq
  tail : Option ℕ := none
  allocated : ℕ := 0
  sent : ℕ → Bool := fun _ => false

/-- `rpc__dg_xmitq_reinit`; the rest is retained between calls. -/
def reinit (xq : Xmitq) : State where
  xq := { xq with
    queue := []
    firstUnsent := none
    rexmitq := []
    nextFragnum := 0
    nextSerialNum := 0
    lastFackSerial := 0xffff
    windowSize := 8
    cwindowSize := 0
    blastSize := 0
    freqsOut := 0
    push := false
    awaitingAck := false
    firstFackSeen := true }

/-- `xq->tail->next = xqe`, where `xqe->next` is NULL. -/
def linkTail (tail : ℕ) (xqe : XmitqElt) : List XmitqElt → List XmitqElt
  | [] => []
  | y :: rest => if y.ptr = tail then [y, xqe] else y :: linkTail tail xqe rest

/-- `rpc__dg_xmitq_append_pp`, where there is a partial packet; `none` is a write through NULL. -/
def append (s : State) (push : Bool) : Option State :=
  let xqe : XmitqElt := { ptr := s.allocated, fragnum := s.xq.nextFragnum }
  let xq := { s.xq with
    nextFragnum := s.xq.nextFragnum + 1
    push := push
    isFrag := s.xq.isFrag || !push }
  if s.xq.queue = [] then
    -- the new element is head, tail and first unsent one
    some { s with
      xq := { xq with queue := [xqe], firstUnsent := some xqe.ptr }
      tail := some xqe.ptr
      allocated := s.allocated + 1 }
  else
    s.tail.map fun tail => { s with
      xq := { xq with
        queue := linkTail tail xqe s.xq.queue
        firstUnsent := if s.xq.firstUnsent = none then some xqe.ptr else s.xq.firstUnsent }
      tail := some xqe.ptr
      allocated := s.allocated + 1 }

/-- A packet is no longer counted; the flag for the last fragment counts like a request. -/
def outOfWindow (xq : Xmitq) (xqe : XmitqElt) : Xmitq :=
  if xqe.inCwindow then
    { xq with
      cwindowSize := xq.cwindowSize - 1
      freqsOut := if !xqe.flagIsSet noFack || xqe.flagIsSet lastFrag then xq.freqsOut - 1
        else xq.freqsOut }
  else xq

/-- `rpc__dg_call_xmitq_timer`, when the time of a call without failure has come. -/
def xmitqTimer (xq : Xmitq) : Xmitq :=
  match xq.queue with
  | [] => xq
  | xqe :: rest =>
    -- a packet that was not sent is not sent again, the blast begins with it
    let xq := { xq with
      rexmitq := if xq.firstUnsent = some xqe.ptr then xq.rexmitq else [xqe.ptr] }
    { outOfWindow xq xqe with
      queue := { xqe with inCwindow := false } :: rest
      blastSize := 1 }

def initialBlastSize : ℕ := 2

/-- `rpc__dg_xmitq_restart`, up to where a transmission is started. -/
def xmitqRestart (xq : Xmitq) : Xmitq :=
  if xq.blastSize ≠ 0 then xq
  else
    let again := sentPart xq.firstUnsent xq.queue
    -- with nothing to send again, the first unsent packet is sent
    let rexmitCnt := if again = [] ∧ xq.firstUnsent ≠ none then 1 else again.length
    { again.foldl outOfWindow xq with
      queue := again.map (fun xqe => { xqe with inCwindow := false }) ++
        unsentPart xq.firstUnsent xq.queue
      rexmitq := if again = [] then xq.rexmitq else ptrs again
      blastSize := BitVec.ofNat 8 (min rexmitCnt initialBlastSize) }

/-! ### The last element under a fack -/

variable (fack : Heard)

/-- `xq->tail` in the loop over the bits of one word: if its element is removed, it becomes
`xq_prev`, the last one that was kept. -/
def tailWord (last : Bool) :
    ℕ → BitVec 32 → ℕ → List XmitqElt → Scan → Option ℕ → Option ℕ
  | 0, _, _, _, _, tail => tail
  | _ + 1, _, _, [], _, tail => tail
  | n + 1, mask, cursor, xqe :: rest, s, tail =>
    if mask = 0 ∧ last then tail
    else if cursor ≠ xqe.num then tailWord last n (mask >>> 1) (cursor + 1) (xqe :: rest) s tail
    else
      tailWord last n (mask >>> 1) (cursor + 1) rest (markElt fack (mask.getLsbD 0) xqe s)
        (if mask.getLsbD 0 ∧ tail = some xqe.ptr then (ptrs s.kept).getLast? else tail)

/-- The same over the words from word `i` on. -/
def tailWords (selack : ℕ → BitVec 32) :
    ℕ → ℕ → ℕ → List XmitqElt → Scan → Option ℕ → Option ℕ
  | 0, _, _, _, _, tail => tail
  | n + 1, i, cursor, curr, s, tail =>
    let r := maskWord fack (n = 0) 32 (selack i) cursor curr s
    let tail := tailWord fack (n = 0) 32 (selack i) cursor curr s tail
    if r.1 = [] then tail else tailWords selack n (i + 1) (cursor + 32) r.1 r.2 tail

/-- What the loops of `rpc__dg_fack_common` read, and what they start from. -/
def heardBy (xq : Xmitq) (pkt : FackPkt) : Heard where
  fragnum := pkt.fragnum
  lastFackSerial := if pkt.usingSelacks then pkt.inq16 pkt.serialNum else xq.lastFackSerial

def atStart (xq : Xmitq) : Scan where
  cwindowSize := xq.cwindowSize
  freqsOut := xq.freqsOut
  currSerial := xq.lastFackSerial

/-- `xq->tail` in `rpc__dg_fack_common`: it is NULL if the header acknowledges the whole queue. -/
def fackTail (xq : Xmitq) (pkt : FackPkt) (tail : Option ℕ) : Option ℕ :=
  let heard := heardBy xq pkt
  match ackInclusive heard xq.firstUnsent pkt.usingSelacks xq.queue (atStart xq) with
  | none => tail
  | some (queue, s) =>
    if queue = [] then none
    else if 0 < pkt.len then
      tailWords heard (fun i => pkt.inq32 (pkt.selack i)) (pkt.inq16 pkt.selackLen).toNat 0
        (pkt.fragnum.toNat + 1) queue s tail
    else tail

/-! ### Steps -/

/-- What happens.  A transmission that another routine starts is a `callXmit` of its own; `ready` is
a caller that sets the size of the next blast. -/
inductive Event
  | append (push : Bool)
  | ready (blast : BitVec 8)
  | callXmit
  | timer
  | restart
  | fack (resvs : Resvs) (pkt : FackPkt)

/-- `none` is a call of `abort`, or an access through NULL. -/
def step (s : State) : Event → Option State
  | .append push => append s push
  | .ready blast => some { s with xq := { s.xq with blastSize := blast } }
  | .callXmit =>
    let r := callXmit s.xq
    some { s with xq := r.1, sent := fun p => s.sent p || r.2.any (·.ptr = p) }
  | .timer => some { s with xq := xmitqTimer s.xq }
  | .restart => some { s with xq := xmitqRestart s.xq }
  | .fack resvs pkt =>
    (fackCommon resvs s.xq pkt).map fun r =>
      { s with xq := r.xq, tail := fackTail s.xq pkt s.tail }

/-- How many elements are in the congestion window, and how many of them asked for a fack. -/
def window (l : List XmitqElt) : ℕ := l.countP XmitqElt.inCwindow

def requests (l : List XmitqElt) : ℕ := l.countP fun xqe => xqe.inCwindow && !xqe.flagIsSet noFack

/-- The queue is in order. -/
structure InOrder (s : State) : Prop where
  tail : s.tail = (ptrs s.xq.queue).getLast?
  firstUnsent : OnQueue s.xq.firstUnsent s.xq.queue
  sent : ∀ xqe ∈ sentPart s.xq.firstUnsent s.xq.queue, s.sent xqe.ptr = true
  unsent : ∀ xqe ∈ unsentPart s.xq.firstUnsent s.xq.queue, s.sent xqe.ptr = false
  rexmitq : ∀ p ∈ s.xq.rexmitq, p ∈ ptrs s.xq.queue ∧ s.sent p = true
  cwindow : s.xq.cwindowSize.toNat = window s.xq.queue
  freqs : s.xq.freqsOut.toNat = requests s.xq.queue

/-- The packets of the next blast, and those of them that ask for a fack. -/
def blastLength (xq : Xmitq) : ℕ :=
  min xq.blastSize.toNat (xq.rexmitq.length + (unsentPart xq.firstUnsent xq.queue).length)

def blastRequests (xq : Xmitq) : ℕ :=
  (List.range' 1 (blastLength xq)).countP fun i =>
    !xq.isFrag || decide (i = extraFack xq) || decide (i = xq.blastSize.toNat)

/-- A fack without a body fits, and one with a mask whose bits, up to the last one that is set in
the last word, do not get to the first unsent fragment.  A blast fits if the counters have room for
it. -/
def Fits (s : State) : Event → Prop
  | .callXmit => window s.xq.queue + blastLength s.xq < 2 ^ 16 ∧
      requests s.xq.queue + blastRequests s.xq < 2 ^ 8
  | .fack _ pkt => pkt.len = 0 ∨ pkt.usingSelacks = true ∧
      ∀ p, s.xq.firstUnsent = some p → p ∉ ptrs (met s.xq pkt)
  | _ => True

variable {fack} {F : BitVec 16 → Prop} {firstUnsent : Option ℕ} {s s' : Scan} {xqe : XmitqElt}
  {curr : List XmitqElt} {wasRequest : Bool}

/-! ### Counters -/

theorem window_append (l m : List XmitqElt) : window (l ++ m) = window l + window m :=
  List.countP_append

theorem requests_append (l m : List XmitqElt) : requests (l ++ m) = requests l + requests m :=
  List.countP_append

theorem window_cons (xqe : XmitqElt) (l : List XmitqElt) :
    window (xqe :: l) = window l + if xqe.inCwindow then 1 else 0 := List.countP_cons ..

theorem requests_cons (xqe : XmitqElt) (l : List XmitqElt) :
    requests (xqe :: l) = requests l + if xqe.inCwindow && !xqe.flagIsSet noFack then 1 else 0 :=
  List.countP_cons ..

/-- An element that is out of the window is not counted. -/
theorem window_idle (xqe : XmitqElt) (l : List XmitqElt) :
    window ({ xqe with inCwindow := false } :: l) = window l := window_cons ..

theorem requests_idle (xqe : XmitqElt) (l : List XmitqElt) :
    requests ({ xqe with inCwindow := false } :: l) = requests l := requests_cons ..

theorem cwindow_sub {c : BitVec 16} {n : ℕ} (h : c.toNat = n + 1) : (c - 1).toNat = n := by
  bv_omega

theorem freqs_sub {c : BitVec 8} {n : ℕ} (h : c.toNat = n + 1) : (c - 1).toNat = n := by
  bv_omega

theorem leaveCwindow_spec {n m : ℕ} (hw : wasRequest = !xqe.flagIsSet noFack)
    (hc : s.cwindowSize.toNat = n + if xqe.inCwindow then 1 else 0)
    (hf : s.freqsOut.toNat = m + if xqe.inCwindow && !xqe.flagIsSet noFack then 1 else 0) :
    (leaveCwindow xqe wasRequest s).cwindowSize.toNat = n ∧
      (leaveCwindow xqe wasRequest s).freqsOut.toNat = m := by
  subst hw
  rw [leaveCwindow]
  cases hin : xqe.inCwindow with
  | false =>
    rw [hin] at hc hf
    exact ⟨hc, hf⟩
  | true =>
    rw [hin] at hc hf
    rw [if_pos rfl] at hc
    refine ⟨cwindow_sub hc, ?_⟩
    rw [if_pos rfl]
    cases hask : !xqe.flagIsSet noFack with
    | false =>
      rw [hask] at hf
      exact hf
    | true =>
      rw [hask] at hf
      exact freqs_sub hf

/-! ### The loops over a fack -/

/-- The counters count what was kept and what is still to be looked at; what is to be sent again is
out of the window.  `F` holds of all flags. -/
structure Counts (F : BitVec 16 → Prop) (s : Scan) (curr : List XmitqElt) : Prop where
  nodup : (ptrs (s.kept ++ curr)).Nodup
  flags : ∀ xqe ∈ s.kept ++ curr, xqe.flagIsSet lastFrag = false ∧ F xqe.flags
  rexmitq : ∀ p ∈ s.rexmitq, p ∈ ptrs s.kept
  idle : ∀ xqe ∈ s.kept, xqe.ptr ∈ s.rexmitq → xqe.inCwindow = false
  cwindow : s.cwindowSize.toNat = window (s.kept ++ curr)
  freqs : s.freqsOut.toNat = requests (s.kept ++ curr)

/-- The blast is of no account for the counters. -/
theorem Counts.congr (h : Counts F s curr) (hkept : s'.kept = s.kept)
    (hrexmitq : s'.rexmitq = s.rexmitq) (hcwindow : s'.cwindowSize = s.cwindowSize)
    (hfreqs : s'.freqsOut = s.freqsOut) : Counts F s' curr where
  nodup := hkept ▸ h.nodup
  flags := hkept ▸ h.flags
  rexmitq := by rw [hkept, hrexmitq]; exact h.rexmitq
  idle := by rw [hkept, hrexmitq]; exact h.idle
  cwindow := by rw [hkept, hcwindow]; exact h.cwindow
  freqs := by rw [hkept, hfreqs]; exact h.freqs

theorem Counts.split (h : Counts F s (xqe :: curr)) :
    s.cwindowSize.toNat = window (s.kept ++ curr) + (if xqe.inCwindow then 1 else 0) ∧
      s.freqsOut.toNat = requests (s.kept ++ curr) +
        if xqe.inCwindow && !xqe.flagIsSet noFack then 1 else 0 := by
  have hc := h.cwindow
  have hf := h.freqs
  rw [window_append, window_cons] at hc
  rw [requests_append, requests_cons] at hf
  rw [window_append, requests_append]
  exact ⟨by omega, by omega⟩

theorem Counts.asks (h : Counts F s (xqe :: curr)) :
    (!xqe.flagIsSet noFack || xqe.flagIsSet lastFrag) = !xqe.flagIsSet noFack := by
  rw [(h.flags xqe (List.mem_append_right _ List.mem_cons_self)).1, Bool.or_false]

theorem Counts.free (h : Counts F s (xqe :: curr)) (hw : wasRequest = !xqe.flagIsSet noFack) :
    Counts F (free xqe (leaveCwindow xqe wasRequest s)) curr := by
  obtain ⟨hc, hf⟩ := leaveCwindow_spec hw h.split.1 h.split.2
  have hsub : (s.kept ++ curr).Sublist (s.kept ++ xqe :: curr) :=
    (List.sublist_cons_self xqe curr).append_left _
  have hkept := leaveCwindow_kept (s := s) xqe wasRequest
  have hrexmitq := leaveCwindow_rexmitq (s := s) xqe wasRequest
  refine ⟨?_, ?_, ?_, ?_, ?_, ?_⟩
  all_goals simp only [Selack.free, hkept, hrexmitq]
  · exact h.nodup.sublist (hsub.map _)
  · exact fun x hx => h.flags x (hsub.subset hx)
  · exact h.rexmitq
  · exact h.idle
  · exact hc
  · exact hf

theorem Counts.keep (h : Counts F s (xqe :: curr)) : Counts F (keep xqe s) curr := by
  have hassoc : s.kept ++ [xqe] ++ curr = s.kept ++ xqe :: curr := List.append_assoc ..
  have hnodup := h.nodup
  rw [ptrs_append, ptrs_cons] at hnodup
  have hnot : xqe.ptr ∉ s.rexmitq := fun hmem =>
    List.disjoint_of_nodup_append hnodup (h.rexmitq _ hmem) List.mem_cons_self
  refine ⟨?_, ?_, fun p hp => ?_, fun x hx hmem => ?_, ?_, ?_⟩
  · exact hassoc ▸ h.nodup
  · exact hassoc ▸ h.flags
  · exact ptrs_append _ _ ▸ List.mem_append_left _ (h.rexmitq p hp)
  · rcases List.mem_append.mp hx with hx | hx
    · exact h.idle x hx hmem
    · obtain rfl := List.mem_singleton.mp hx
      exact absurd hmem hnot
  · exact hassoc ▸ h.cwindow
  · exact hassoc ▸ h.freqs

theorem Counts.again (h : Counts F s (xqe :: curr)) (hw : wasRequest = !xqe.flagIsSet noFack) :
    Counts F (addRexmit xqe (leaveCwindow xqe wasRequest s)) curr := by
  obtain ⟨hc, hf⟩ := leaveCwindow_spec hw h.split.1 h.split.2
  have hkept := leaveCwindow_kept (s := s) xqe wasRequest
  have hrexmitq := leaveCwindow_rexmitq (s := s) xqe wasRequest
  have hassoc : ∀ x : XmitqElt, s.kept ++ [x] ++ curr = s.kept ++ x :: curr := fun x =>
    List.append_assoc ..
  have hnodup := h.nodup
  rw [ptrs_append, ptrs_cons] at hnodup
  refine ⟨?_, ?_, ?_, ?_, ?_, ?_⟩
  all_goals simp only [addRexmit, hkept, hrexmitq, hassoc]
  · rw [ptrs_append, ptrs_cons]
    exact hnodup
  · intro x hx
    rcases List.mem_append.mp hx with hx | hx
    · exact h.flags x (List.mem_append_left _ hx)
    · rcases List.mem_cons.mp hx with rfl | hx
      · exact h.flags xqe (List.mem_append_right _ List.mem_cons_self)
      · exact h.flags x (List.mem_append_right _ (List.mem_cons_of_mem _ hx))
  · intro p hp
    rw [ptrs_append]
    rcases List.mem_append.mp hp with hp | hp
    · exact List.mem_append_left _ (h.rexmitq p hp)
    · exact List.mem_append_right _ hp
  · intro x hx hmem
    rcases List.mem_append.mp hx with hx | hx
    · rcases List.mem_append.mp hmem with hmem | hmem
      · exact h.idle x hx hmem
      · have hin : xqe.ptr ∈ ptrs s.kept :=
          List.mem_singleton.mp hmem ▸ List.mem_map_of_mem hx
        exact (List.disjoint_of_nodup_append hnodup hin List.mem_cons_self).elim
    · rw [List.mem_singleton.mp hx]
  · rw [window_append, window_idle, ← window_append]
    exact hc
  · rw [requests_append, requests_idle, ← requests_append]
    exact hf

theorem Counts.track (h : Counts F s curr) (x : XmitqElt) (lost : Bool) :
    Counts F (trackCurrentBlast fack x lost s) curr := by
  refine h.congr (trackCurrentBlast_kept fack x lost) (trackCurrentBlast_rexmitq fack x lost) ?_ ?_
  · unfold trackCurrentBlast
    dsimp only
    split_ifs <;> rfl
  · unfold trackCurrentBlast
    dsimp only
    split_ifs <;> rfl

theorem Counts.ackHead (h : Counts F s (xqe :: curr)) (selacks : Bool) :
    Counts F (ackHead fack selacks xqe s) curr := by
  unfold Selack.ackHead
  cases selacks with
  | true => exact (h.track xqe false).free rfl
  | false =>
    have hcount : Counts F { s with windowIncr := s.windowIncr + 1 } (xqe :: curr) :=
      h.congr rfl rfl rfl rfl
    exact hcount.free rfl

theorem Counts.markElt (h : Counts F s (xqe :: curr)) (acked : Bool) :
    Counts F (markElt fack acked xqe s) curr := by
  unfold Selack.markElt
  cases acked with
  | true => exact (h.track xqe false).free h.asks
  | false =>
    rw [if_neg Bool.false_ne_true]
    split
    · unfold markLost
      have htrack : Counts F (trackCurrentBlast fack xqe true s) (xqe :: curr) := h.track xqe true
      have hagain : Counts F (addRexmit xqe (leaveCwindow xqe (!xqe.flagIsSet noFack) _)) curr :=
        htrack.again rfl
      dsimp only
      split
      · exact hagain.congr rfl rfl rfl rfl
      · exact hagain
    · exact h.keep

theorem Counts.ackInclusive {queue : List XmitqElt} {selacks : Bool} (h : Counts F s queue)
    (hack : ackInclusive fack firstUnsent selacks queue s = some (curr, s')) :
    Counts F s' curr := by
  -- along the loop, each turn of which frees the head
  induction queue generalizing s with
  | nil =>
    rw [Selack.ackInclusive] at hack
    split at hack
    · cases hack
      exact h
    · cases hack
  | cons xqe rest ih =>
    rw [Selack.ackInclusive] at hack
    split at hack
    · cases hack
      exact h
    · split at hack
      · exact ih (h.ackHead selacks) hack
      · cases hack
        exact h

theorem Counts.maskWord (h : Counts F s curr) (last : Bool) (n : ℕ) (mask : BitVec 32)
    (cursor : ℕ) : Counts F (maskWord fack last n mask cursor curr s).2
      (maskWord fack last n mask cursor curr s).1 := by
  induction n generalizing mask cursor curr s with
  | zero => exact h
  | succ n ih =>
    cases curr with
    | nil => exact h
    | cons xqe rest =>
      rw [Selack.maskWord]
      split
      · exact h
      · split
        · exact ih h _ _
        · exact ih (h.markElt _) _ _

theorem Counts.maskWords (h : Counts F s curr) (selack : ℕ → BitVec 32) (n i cursor : ℕ) :
    Counts F (maskWords fack selack n i cursor curr s).1.2
      (maskWords fack selack n i cursor curr s).1.1 := by
  induction n generalizing i cursor curr s with
  | zero => exact h
  | succ n ih =>
    rw [Selack.maskWords]
    split
    · exact h.maskWord _ _ _ _
    · exact ih (h.maskWord _ _ _ _) _ _

theorem Counts.tailScan {queue : List XmitqElt} (h : Counts F s queue)
    (hscan : tailScan fack firstUnsent queue s = some (curr, s')) : Counts F s' curr := by
  induction queue generalizing s with
  | nil =>
    rw [Selack.tailScan] at hscan
    split at hscan
    · cases hscan
      exact h
    · cases hscan
  | cons xqe rest ih =>
    rw [Selack.tailScan] at hscan
    split at hscan
    · cases hscan
      exact h
    · split at hscan
      · exact ih (h.again h.asks) hscan
      · exact ih h.keep hscan

/-! ### The routine for facks -/

/-- What the loops leave is a queue again. -/
def atEnd (xq : Xmitq) : Scan where
  kept := xq.queue
  rexmitq := xq.rexmitq
  cwindowSize := xq.cwindowSize
  freqsOut := xq.freqsOut
  currSerial := xq.lastFackSerial

theorem noteLoss_counters (xq : Xmitq) (a : BitVec 32) :
    (noteLoss xq a).cwindowSize = xq.cwindowSize ∧ (noteLoss xq a).freqsOut = xq.freqsOut ∧
      (noteLoss xq a).isFrag = xq.isFrag := by
  unfold noteLoss
  dsimp only
  split_ifs <;> exact ⟨rfl, rfl, rfl⟩

theorem raiseMaxBlast_counters (xq : Xmitq) :
    (raiseMaxBlast xq).cwindowSize = xq.cwindowSize ∧ (raiseMaxBlast xq).freqsOut = xq.freqsOut ∧
      (raiseMaxBlast xq).isFrag = xq.isFrag := by
  unfold raiseMaxBlast
  dsimp only
  split_ifs <;> exact ⟨rfl, rfl, rfl⟩

theorem adoptFragSize_counters (resvs : Resvs) (xq : Xmitq) (size : BitVec 32) :
    (adoptFragSize resvs xq size).cwindowSize = xq.cwindowSize ∧
      (adoptFragSize resvs xq size).freqsOut = xq.freqsOut ∧
      (adoptFragSize resvs xq size).isFrag = xq.isFrag := by
  unfold adoptFragSize
  split_ifs <;> exact ⟨rfl, rfl, rfl⟩

/-- The size of the next blast does not concern the queue. -/
theorem sizeBlast_counters (xq : Xmitq) (a b : BitVec 32) :
    (sizeBlast xq a b).cwindowSize = xq.cwindowSize ∧ (sizeBlast xq a b).freqsOut = xq.freqsOut ∧
      (sizeBlast xq a b).isFrag = xq.isFrag := by
  obtain ⟨hc, hf, hi⟩ := raiseMaxBlast_counters (noteLoss xq b)
  obtain ⟨hc', hf', hi'⟩ := noteLoss_counters xq b
  exact ⟨hc.trans hc', hf.trans hf', hi.trans hi'⟩

/-- Elements move from what is to be looked at to what is kept. -/
theorem tailScan_ptrs {queue : List XmitqElt}
    (hscan : tailScan fack firstUnsent queue s = some (curr, s')) :
    ptrs (s'.kept ++ curr) = ptrs (s.kept ++ queue) := by
  induction queue generalizing s with
  | nil =>
    rw [Selack.tailScan] at hscan
    split at hscan
    · cases hscan
      rfl
    · cases hscan
  | cons xqe rest ih =>
    rw [Selack.tailScan] at hscan
    split at hscan
    · cases hscan
      rfl
    · split at hscan
      · rw [ih hscan]
        simp [addRexmit]
      · rw [ih hscan]
        simp [Selack.keep]

/-- The last element is followed through the mask. -/
theorem tailWord_spec {tail : Option ℕ} (h : Counts F s curr)
    (htail : tail = (ptrs (s.kept ++ curr)).getLast?) (last : Bool) (n : ℕ) (mask : BitVec 32)
    (cursor : ℕ) : tailWord fack last n mask cursor curr s tail =
      (ptrs ((maskWord fack last n mask cursor curr s).2.kept ++
        (maskWord fack last n mask cursor curr s).1)).getLast? := by
  induction n generalizing mask cursor curr s tail with
  | zero => exact htail
  | succ n ih =>
    cases curr with
    | nil => exact htail
    | cons xqe rest =>
      rw [tailWord, Selack.maskWord]
      split
      · exact htail
      · split
        · exact ih h htail _ _
        · refine ih (h.markElt _) ?_ _ _
          have hsifted : Sifted s (Selack.markElt fack (mask.getLsbD 0) xqe s) [xqe] _ :=
            sifted_markElt _ xqe
          have hkept := hsifted.kept
          have hnodup := h.nodup
          rw [ptrs_append, ptrs_cons] at hnodup htail
          rw [ptrs_append, hkept]
          cases hbit : mask.getLsbD 0 with
          | false =>
            rw [if_neg (by simp), if_neg Bool.false_ne_true, htail, List.append_assoc]
            rfl
          | true =>
            -- the element goes: it was the last one only if nothing is behind it
            rw [if_pos rfl, ptrs_nil, List.append_nil]
            cases rest with
            | nil =>
              have hlast : tail = some xqe.ptr := htail.trans List.getLast?_concat
              rw [if_pos ⟨rfl, hlast⟩, ptrs_nil, List.append_nil]
            | cons y rest =>
              have hne : tail ≠ some xqe.ptr := by
                rw [htail, List.getLast?_append, ptrs_cons, List.getLast?_cons_cons,
                  List.getLast?_cons, Option.some_or, ← List.getLast?_cons]
                intro heq
                exact (List.nodup_cons.mp hnodup.of_append_right).1 (List.mem_of_getLast? heq)
              rw [if_neg fun h => hne h.2, htail, List.getLast?_append, List.getLast?_append,
                ptrs_cons, List.getLast?_cons_cons]

theorem tailWords_spec {tail : Option ℕ} (h : Counts F s curr)
    (htail : tail = (ptrs (s.kept ++ curr)).getLast?) (selack : ℕ → BitVec 32) (n i cursor : ℕ) :
    tailWords fack selack n i cursor curr s tail =
      (ptrs ((maskWords fack selack n i cursor curr s).1.2.kept ++
        (maskWords fack selack n i cursor curr s).1.1)).getLast? := by
  induction n generalizing i cursor curr s tail with
  | zero => exact htail
  | succ n ih =>
    rw [tailWords, Selack.maskWords]
    have hword : tailWord fack (decide (n = 0)) 32 (selack i) cursor curr s tail = _ :=
      tailWord_spec h htail _ 32 (selack i) cursor
    split
    · exact hword
    · exact ih (h.maskWord _ _ _ _) hword _ _

/-- The counters come through the computation of the next blast. -/
theorem Counts.sized {xq : Xmitq} (h : Counts F s curr) (hqueue : xq.queue = s.kept ++ curr)
    (hrexmitq : xq.rexmitq = s.rexmitq) (hcwindow : xq.cwindowSize = s.cwindowSize)
    (hfreqs : xq.freqsOut = s.freqsOut) (incr cnt : BitVec 32) :
    Counts F (atEnd (sizeBlast xq incr cnt)) [] := by
  have hnodup := h.nodup
  rw [ptrs_append] at hnodup
  obtain ⟨hq, hre, -⟩ := sizeBlast_frame xq incr cnt
  obtain ⟨hcw, hfr, -⟩ := sizeBlast_counters xq incr cnt
  refine ⟨?_, ?_, ?_, ?_, ?_, ?_⟩
  all_goals simp only [atEnd, hq.trans hqueue, hre.trans hrexmitq, hcw.trans hcwindow,
    hfr.trans hfreqs, List.append_nil]
  · exact h.nodup
  · exact h.flags
  · intro p hp
    rw [ptrs_append]
    exact List.mem_append_left _ (h.rexmitq p hp)
  · intro x hx hmem
    rcases List.mem_append.mp hx with hx | hx
    · exact h.idle x hx hmem
    · exact (List.disjoint_of_nodup_append hnodup (h.rexmitq _ hmem)
        (List.mem_map_of_mem hx)).elim
  · exact h.cwindow
  · exact h.freqs

/-- The mask, and the scan behind it. -/
theorem doSelectiveAck_counts {pkt : FackPkt} {queue : List XmitqElt} {read : ℕ} {tail : Option ℕ}
    (h : Counts F s queue) (hne : queue ≠ []) (htail : tail = (ptrs (s.kept ++ queue)).getLast?)
    (hsel : doSelectiveAck fack firstUnsent pkt queue s = some ((curr, s'), read)) :
    Counts F s' curr ∧
      tailWords fack (fun i => pkt.inq32 (pkt.selack i)) (pkt.inq16 pkt.selackLen).toNat 0
        (fack.fragnum.toNat + 1) queue s tail = (ptrs (s'.kept ++ curr)).getLast? := by
  rw [doSelectiveAck, if_neg hne] at hsel
  obtain ⟨scanned, hscan, heq⟩ := Option.map_eq_some_iff.mp hsel
  cases heq
  refine ⟨(h.maskWords _ _ _ _).tailScan hscan, ?_⟩
  rw [tailScan_ptrs hscan]
  exact tailWords_spec h htail _ _ _ _

/-- The last element of what the header leaves. -/
theorem getLast?_suffix {queue l : List XmitqElt} (h : queue <:+ l) (hne : queue ≠ []) :
    (ptrs l).getLast? = (ptrs queue).getLast? := by
  obtain ⟨pre, rfl⟩ := h
  cases queue with
  | nil => exact absurd rfl hne
  | cons x rest =>
    rw [ptrs_append, List.getLast?_append, ptrs_cons, List.getLast?_cons, Option.some_or]

/-- What a fack leaves of the queue, with the counters and the last element. -/
theorem fackCommon_counts {xq : Xmitq} (hxq : XmitqOk xq) {resvs : Resvs} {pkt : FackPkt}
    {r : Result} {tail : Option ℕ} (hr : fackCommon resvs xq pkt = some r)
    (h : Counts F (atStart xq) xq.queue) (htail : tail = (ptrs xq.queue).getLast?) :
    Counts F (atEnd r.xq) [] ∧ r.xq.isFrag = xq.isFrag ∧
      fackTail xq pkt tail = (ptrs r.xq.queue).getLast? ∧
      (pkt.len = 0 → r.xq.rexmitq = []) := by
  obtain ⟨s₁, hack, hkept, hrexmitq, -⟩ : ∃ s₁, ackInclusive (heardBy xq pkt) xq.firstUnsent
      pkt.usingSelacks xq.queue (atStart xq) = some (xq.queue.dropWhile fun xqe =>
        xq.firstUnsent ≠ some xqe.ptr ∧ Serial.Le xqe.fragnum (heardBy xq pkt).fragnum, s₁) ∧
      s₁.kept = [] ∧ s₁.rexmitq = [] ∧ s₁.rexmitCnt = 0 :=
    ackInclusive_spec pkt.usingSelacks xq.queue hxq.onQueue
  have hcounts := h.ackInclusive hack
  have hsuffix : (xq.queue.dropWhile fun xqe =>
      xq.firstUnsent ≠ some xqe.ptr ∧ Serial.Le xqe.fragnum (heardBy xq pkt).fragnum) <:+
      xq.queue := List.dropWhile_suffix _
  generalize (xq.queue.dropWhile fun xqe =>
      xq.firstUnsent ≠ some xqe.ptr ∧ Serial.Le xqe.fragnum (heardBy xq pkt).fragnum) = queue at *
  have hlast : queue ≠ [] → tail = (ptrs queue).getLast? := fun hne =>
    htail.trans (getLast?_suffix hsuffix hne)
  have htailEq : fackTail xq pkt tail =
      if queue = [] then none
      else if 0 < pkt.len then
        tailWords (heardBy xq pkt) (fun i => pkt.inq32 (pkt.selack i))
          (pkt.inq16 pkt.selackLen).toNat 0 (pkt.fragnum.toNat + 1) queue s₁ tail
      else tail := by
    rw [fackTail, hack]
  unfold fackCommon at hr
  change (ackInclusive (heardBy xq pkt) xq.firstUnsent pkt.usingSelacks xq.queue
    (atStart xq)).bind _ = _ at hr
  rw [hack] at hr
  change (if 0 < pkt.len then _ else _) = _ at hr
  by_cases hlen : 0 < pkt.len
  · -- a body is understood only with a mask
    rw [if_pos hlen] at hr
    by_cases hmask : pkt.usingSelacks = true
    · rw [if_pos hmask] at hr
      obtain ⟨⟨xq', s', read⟩, hbody, hrest⟩ := Option.bind_eq_some_iff.mp hr
      have hsplit := hmask
      rw [FackPkt.usingSelacks, Bool.and_eq_true, decide_eq_true_eq, decide_eq_true_eq] at hsplit
      rw [doFackBody, if_neg fun h => h hsplit.2, if_pos hsplit.1] at hbody
      obtain ⟨⟨⟨q, s₂⟩, n⟩, hsel, hbody⟩ := Option.bind_eq_some_iff.mp hbody
      cases hbody
      cases hrest
      have hmasked : Counts F s' q ∧ fackTail xq pkt tail = (ptrs (s'.kept ++ q)).getLast? := by
        rw [htailEq, if_pos hlen]
        by_cases hnil : queue = []
        · rw [doSelectiveAck, if_pos hnil] at hsel
          cases hsel
          subst queue
          exact ⟨hcounts, by rw [hkept]; rfl⟩
        · rw [if_neg hnil]
          exact doSelectiveAck_counts hcounts hnil (by rw [hkept]; exact hlast hnil) hsel
      refine ⟨hmasked.1.sized (adoptFragSize_frame _ _ _).1 (adoptFragSize_frame _ _ _).2.1
        (adoptFragSize_counters _ _ _).1 (adoptFragSize_counters _ _ _).2.1 _ _,
        (sizeBlast_counters _ _ _).2.2.trans (adoptFragSize_counters _ _ _).2.2, ?_,
        fun h => absurd h hlen.ne'⟩
      rw [hmasked.2, (sizeBlast_frame _ _ _).1]
      dsimp only
      rw [(adoptFragSize_frame _ _ _).1]
      rfl
    · rw [if_neg hmask] at hr
      cases hr
  · -- the header alone: the tail stays, unless nothing is left
    rw [if_neg hlen] at hr
    cases hr
    refine ⟨hcounts.sized (by rw [hkept]; rfl) rfl rfl rfl _ _, (sizeBlast_counters _ _ _).2.2, ?_,
      fun _ => (sizeBlast_frame _ _ _).2.1.trans hrexmitq⟩
    rw [htailEq, if_neg hlen, (sizeBlast_frame _ _ _).1]
    by_cases hnil : queue = []
    · rw [if_pos hnil, hnil]
      rfl
    · rw [if_neg hnil]
      exact hlast hnil

/-! ### The parts of the queue -/

variable {fu : Option ℕ} {l queue : List XmitqElt} {pre post : List ℕ} {n m : ℕ}

/-- Where the first unsent element is known, so are both parts. -/
theorem ptrs_split (hq : ptrs queue = pre ++ post) (hnodup : (pre ++ post).Nodup) :
    ptrs (sentPart post.head? queue) = pre ∧ ptrs (unsentPart post.head? queue) = post := by
  -- along the part before it, where no address is the one that is looked for
  induction pre generalizing queue with
  | nil =>
    cases queue with
    | nil => exact ⟨rfl, hq⟩
    | cons xqe rest =>
      obtain rfl : xqe.ptr :: ptrs rest = post := hq
      rw [sentPart, unsentPart, List.takeWhile_cons_of_neg (by simp),
        List.dropWhile_cons_of_neg (by simp)]
      exact ⟨rfl, rfl⟩
  | cons p pre ih =>
    cases queue with
    | nil => cases hq
    | cons xqe rest =>
      rw [ptrs_cons, List.cons_append, List.cons_eq_cons] at hq
      obtain ⟨hp, hrest⟩ := hq
      obtain ⟨hnot, hnodup⟩ := List.nodup_cons.mp hnodup
      have hne : post.head? ≠ some xqe.ptr := by
        intro hhead
        exact hnot (List.mem_append_right _ (hp ▸ List.mem_of_head? hhead))
      rw [sentPart, unsentPart, List.takeWhile_cons_of_pos (by simpa using hne),
        List.dropWhile_cons_of_pos (by simpa using hne)]
      obtain ⟨hsent, hunsent⟩ := ih hrest hnodup
      exact ⟨by rw [ptrs_cons, hp]; exact congrArg _ hsent, hunsent⟩

theorem ptrs_parts (fu : Option ℕ) (queue : List XmitqElt) :
    ptrs queue = ptrs (sentPart fu queue) ++ ptrs (unsentPart fu queue) := by
  rw [← ptrs_append]
  exact congrArg ptrs List.takeWhile_append_dropWhile.symm

theorem onQueue_eq_head (h : OnQueue fu queue) : fu = (ptrs (unsentPart fu queue)).head? := by
  induction queue with
  | nil => exact onQueue_nil.mp h
  | cons xqe rest ih =>
    by_cases hfirst : fu = some xqe.ptr
    · rw [unsentPart, List.dropWhile_cons_of_neg (by simp [hfirst])]
      exact hfirst
    · rw [unsentPart, List.dropWhile_cons_of_pos (by simpa using hfirst)]
      exact ih ((onQueue_cons hfirst).mp h)

theorem onQueue_head (hq : ptrs queue = pre ++ post) : OnQueue post.head? queue := by
  intro p hp
  rw [hq]
  exact List.mem_append_right _ (List.mem_of_head? hp)

/-- What is there of an element follows from its address. -/
theorem eq_of_ptr (hnodup : (ptrs queue).Nodup) {x y : XmitqElt} (hx : x ∈ queue) (hy : y ∈ queue)
    (hptr : x.ptr = y.ptr) : x = y :=
  List.inj_on_of_nodup_map hnodup hx hy hptr

/-! ### The invariant -/

/-- The invariant of the runs. -/
structure Inv (s : State) : Prop where
  tail : s.tail = (ptrs s.xq.queue).getLast?
  onQueue : OnQueue s.xq.firstUnsent s.xq.queue
  nodup : (ptrs s.xq.queue).Nodup
  below : ∀ p ∈ ptrs s.xq.queue, p < s.allocated
  fresh : ∀ p, s.allocated ≤ p → s.sent p = false
  sent : ∀ p ∈ ptrs (sentPart s.xq.firstUnsent s.xq.queue), s.sent p = true
  unsent : ∀ p ∈ ptrs (unsentPart s.xq.firstUnsent s.xq.queue), s.sent p = false
  again : ∀ p ∈ s.xq.rexmitq, p ∈ ptrs (sentPart s.xq.firstUnsent s.xq.queue)
  againNodup : s.xq.rexmitq.Nodup
  idle : ∀ xqe ∈ s.xq.queue,
    xqe.ptr ∈ s.xq.rexmitq ++ ptrs (unsentPart s.xq.firstUnsent s.xq.queue) → xqe.inCwindow = false
  flags : ∀ xqe ∈ s.xq.queue, xqe.flagIsSet lastFrag = false ∧
    (s.xq.isFrag = false → xqe.flagIsSet noFack = false)
  cwindow : s.xq.cwindowSize.toNat = window s.xq.queue
  freqs : s.xq.freqsOut.toNat = requests s.xq.queue

theorem Inv.inOrder {s : State} (h : Inv s) : InOrder s where
  tail := h.tail
  firstUnsent := h.onQueue
  sent := fun _ hxqe => h.sent _ (List.mem_map_of_mem hxqe)
  unsent := fun _ hxqe => h.unsent _ (List.mem_map_of_mem hxqe)
  rexmitq := fun p hp =>
    ⟨ptrs_parts s.xq.firstUnsent s.xq.queue ▸ List.mem_append_left _ (h.again p hp),
      h.sent p (h.again p hp)⟩
  cwindow := h.cwindow
  freqs := h.freqs

theorem inv_reinit (xq : Xmitq) : Inv (reinit xq) where
  tail := rfl
  onQueue := fun _ hp => absurd hp (Option.some_ne_none _).symm
  nodup := List.nodup_nil
  below := fun _ hp => absurd hp List.not_mem_nil
  fresh := fun _ _ => rfl
  sent := fun _ hp => absurd hp List.not_mem_nil
  unsent := fun _ hp => absurd hp List.not_mem_nil
  again := fun _ hp => absurd hp List.not_mem_nil
  againNodup := List.nodup_nil
  idle := fun _ hp => absurd hp List.not_mem_nil
  flags := fun _ hp => absurd hp List.not_mem_nil
  cwindow := rfl
  freqs := rfl

/-! ### What a routine keeps -/

/-- A new element goes to the end. -/
theorem linkTail_spec {tail : ℕ} {xqe : XmitqElt} (hnodup : (ptrs queue).Nodup)
    (htail : (ptrs queue).getLast? = some tail) : linkTail tail xqe queue = queue ++ [xqe] := by
  induction queue with
  | nil => cases htail
  | cons y rest ih =>
    obtain ⟨hnot, hnodup⟩ := List.nodup_cons.mp hnodup
    rw [linkTail]
    cases rest with
    | nil =>
      have hy : y.ptr = tail := Option.some_inj.mp htail
      rw [if_pos hy]
      rfl
    | cons z rest =>
      rw [ptrs_cons, ptrs_cons, List.getLast?_cons_cons] at htail
      have hne : y.ptr ≠ tail := fun heq => hnot (heq ▸ List.mem_of_getLast? htail)
      rw [if_neg hne, ih hnodup htail]
      rfl

theorem append_spec {s : State} (h : Inv s) (push : Bool) :
    append s push = some { s with
      xq := { s.xq with
        queue := s.xq.queue ++ [{ ptr := s.allocated, fragnum := s.xq.nextFragnum }]
        firstUnsent := (ptrs (unsentPart s.xq.firstUnsent s.xq.queue) ++ [s.allocated]).head?
        nextFragnum := s.xq.nextFragnum + 1
        push := push
        isFrag := s.xq.isFrag || !push }
      tail := some s.allocated
      allocated := s.allocated + 1 } := by
  have hfirst : (ptrs (unsentPart s.xq.firstUnsent s.xq.queue) ++ [s.allocated]).head? =
      if s.xq.firstUnsent = none then some s.allocated else s.xq.firstUnsent := by
    rw [List.head?_append, ← onQueue_eq_head h.onQueue]
    cases s.xq.firstUnsent with
    | none => rfl
    | some p => rfl
  rw [append, hfirst]
  split
  · rename_i hnil
    have hnone : s.xq.firstUnsent = none := onQueue_nil.mp (hnil ▸ h.onQueue)
    rw [hnil, if_pos hnone]
    rfl
  · rename_i hne
    obtain ⟨tail, htail⟩ : ∃ tail, (ptrs s.xq.queue).getLast? = some tail := by
      refine Option.ne_none_iff_exists'.mp fun hnone => hne ?_
      exact List.map_eq_nil_iff.mp (List.getLast?_eq_none_iff.mp hnone)
    rw [h.tail, htail, Option.map_some, linkTail_spec h.nodup htail]

theorem inv_append {s s' : State} (h : Inv s) {push : Bool} (hstep : append s push = some s') :
    Inv s' := by
  rw [append_spec h] at hstep
  cases hstep
  -- the new element is behind all others, and unsent
  have hnot : s.allocated ∉ ptrs s.xq.queue := fun hmem => (h.below _ hmem).ne rfl
  have hq : ptrs (s.xq.queue ++ [{ ptr := s.allocated, fragnum := s.xq.nextFragnum }]) =
      ptrs (sentPart s.xq.firstUnsent s.xq.queue) ++
        (ptrs (unsentPart s.xq.firstUnsent s.xq.queue) ++ [s.allocated]) := by
    rw [ptrs_append, ← List.append_assoc, ← ptrs_parts]
    rfl
  have hnodup :
      (ptrs (s.xq.queue ++ [{ ptr := s.allocated, fragnum := s.xq.nextFragnum }])).Nodup := by
    rw [ptrs_append]
    refine List.nodup_append.mpr ⟨h.nodup, List.nodup_singleton _, fun p hp q hq heq => hnot ?_⟩
    obtain rfl := heq.trans (List.mem_singleton.mp hq)
    exact hp
  obtain ⟨hsent, hunsent⟩ := ptrs_split hq (hq ▸ hnodup)
  refine ⟨?_, onQueue_head hq, hnodup, ?_, ?_, ?_, ?_, ?_, h.againNodup, ?_, ?_, ?_, ?_⟩
  · rw [ptrs_append]
    exact (List.getLast?_concat).symm
  · intro p hp
    rw [ptrs_append] at hp
    rcases List.mem_append.mp hp with hp | hp
    · exact (h.below p hp).trans (Nat.lt_succ_self _)
    · exact List.mem_singleton.mp hp ▸ Nat.lt_succ_self _
  · exact fun p hp => h.fresh p ((Nat.le_succ _).trans hp)
  · exact hsent ▸ h.sent
  · rw [hunsent]
    intro p hp
    rcases List.mem_append.mp hp with hp | hp
    · exact h.unsent p hp
    · exact h.fresh p (List.mem_singleton.mp hp).ge
  · exact hsent ▸ h.again
  · rw [hunsent]
    intro x hx hmem
    rcases List.mem_append.mp hx with hx | hx
    · refine h.idle x hx ?_
      rw [← List.append_assoc, List.mem_append] at hmem
      refine hmem.resolve_right fun hnew => hnot ?_
      exact List.mem_singleton.mp hnew ▸ List.mem_map_of_mem hx
    · rw [List.mem_singleton.mp hx]
  · intro x hx
    rcases List.mem_append.mp hx with hx | hx
    · exact ⟨(h.flags x hx).1, fun hfrag => (h.flags x hx).2 (Bool.or_eq_false_iff.mp hfrag).1⟩
    · rw [List.mem_singleton.mp hx]
      exact ⟨by simp [XmitqElt.flagIsSet], fun _ => by simp [XmitqElt.flagIsSet]⟩
  · rw [window_append]
    exact h.cwindow
  · rw [requests_append]
    exact h.freqs

theorem outOfWindow_frame (xq : Xmitq) (xqe : XmitqElt) :
    (outOfWindow xq xqe).firstUnsent = xq.firstUnsent ∧ (outOfWindow xq xqe).rexmitq = xq.rexmitq ∧
      (outOfWindow xq xqe).isFrag = xq.isFrag := by
  unfold outOfWindow
  split_ifs <;> exact ⟨rfl, rfl, rfl⟩

theorem outOfWindow_spec {xq : Xmitq} (hlast : xqe.flagIsSet lastFrag = false)
    (hc : xq.cwindowSize.toNat = n + window [xqe]) (hf : xq.freqsOut.toNat = m + requests [xqe]) :
    (outOfWindow xq xqe).cwindowSize.toNat = n ∧ (outOfWindow xq xqe).freqsOut.toNat = m := by
  rw [window_cons] at hc
  rw [requests_cons] at hf
  rw [outOfWindow, hlast, Bool.or_false]
  cases hin : xqe.inCwindow with
  | false =>
    rw [hin] at hc hf
    exact ⟨hc, hf⟩
  | true =>
    rw [hin] at hc hf
    refine ⟨cwindow_sub hc, ?_⟩
    cases hask : !xqe.flagIsSet noFack with
    | false =>
      rw [hask] at hf
      exact hf
    | true =>
      rw [hask] at hf
      exact freqs_sub hf

/-- A part of the queue leaves the window. -/
theorem outOfWindow_foldl {xq : Xmitq} (hlast : ∀ xqe ∈ l, xqe.flagIsSet lastFrag = false)
    (hc : xq.cwindowSize.toNat = n + window l) (hf : xq.freqsOut.toNat = m + requests l) :
    (l.foldl outOfWindow xq).cwindowSize.toNat = n ∧
      (l.foldl outOfWindow xq).freqsOut.toNat = m ∧
      (l.foldl outOfWindow xq).firstUnsent = xq.firstUnsent ∧
      (l.foldl outOfWindow xq).rexmitq = xq.rexmitq ∧
      (l.foldl outOfWindow xq).isFrag = xq.isFrag := by
  induction l generalizing xq with
  | nil => exact ⟨hc, hf, rfl, rfl, rfl⟩
  | cons xqe rest ih =>
    rw [← List.singleton_append, window_append, add_comm (window [xqe]), ← add_assoc] at hc
    rw [← List.singleton_append, requests_append, add_comm (requests [xqe]), ← add_assoc] at hf
    obtain ⟨hc', hf'⟩ := outOfWindow_spec (hlast xqe List.mem_cons_self) hc hf
    obtain ⟨hfirst, hagain, hfrag⟩ := outOfWindow_frame xq xqe
    obtain ⟨hc'', hf'', hfirst', hagain', hfrag'⟩ :=
      ih (fun x hx => hlast x (List.mem_cons_of_mem _ hx)) hc' hf'
    exact ⟨hc'', hf'', hfirst'.trans hfirst, hagain'.trans hagain, hfrag'.trans hfrag⟩

/-- The parts do not change if the addresses do not. -/
theorem parts_congr {q q' : List XmitqElt} (hnodup : (ptrs q).Nodup) (hon : OnQueue fu q)
    (hq : ptrs q' = ptrs q) :
    ptrs (sentPart fu q') = ptrs (sentPart fu q) ∧
      ptrs (unsentPart fu q') = ptrs (unsentPart fu q) := by
  have hparts := hq.trans (ptrs_parts fu q)
  have h := ptrs_split hparts (ptrs_parts fu q ▸ hnodup)
  rw [← onQueue_eq_head hon] at h
  exact h

/-- Elements leave the window, and other ones are to be sent again. -/
theorem Inv.retire {s : State} {xq : Xmitq} (h : Inv s) (hq : ptrs xq.queue = ptrs s.xq.queue)
    (hfirst : xq.firstUnsent = s.xq.firstUnsent) (hfrag : xq.isFrag = s.xq.isFrag)
    (helts : ∀ x ∈ xq.queue, ∃ y ∈ s.xq.queue, y.ptr = x.ptr ∧ y.flags = x.flags ∧
      (y.inCwindow = false → x.inCwindow = false))
    (hagain : ∀ p ∈ xq.rexmitq, p ∈ ptrs (sentPart s.xq.firstUnsent s.xq.queue))
    (hnodup : xq.rexmitq.Nodup)
    (hidle : ∀ x ∈ xq.queue, x.ptr ∈ xq.rexmitq → x.inCwindow = false)
    (hc : xq.cwindowSize.toNat = window xq.queue) (hf : xq.freqsOut.toNat = requests xq.queue) :
    Inv { s with xq := xq } := by
  obtain ⟨hsent, hunsent⟩ := parts_congr h.nodup h.onQueue hq
  refine ⟨?_, ?_, ?_, ?_, h.fresh, ?_, ?_, ?_, hnodup, ?_, ?_, hc, hf⟩
  all_goals dsimp only
  · rw [hq]
    exact h.tail
  · rw [hfirst]
    exact onQueue_of_ptrs hq h.onQueue
  · rw [hq]
    exact h.nodup
  · rw [hq]
    exact h.below
  · rw [hfirst, hsent]
    exact h.sent
  · rw [hfirst, hunsent]
    exact h.unsent
  · rw [hfirst, hsent]
    exact hagain
  · rw [hfirst, hunsent]
    intro x hx hmem
    rcases List.mem_append.mp hmem with hmem | hmem
    · exact hidle x hx hmem
    · obtain ⟨y, hy, hptr, -, hout⟩ := helts x hx
      exact hout (h.idle y hy (List.mem_append_right _ (hptr ▸ hmem)))
  · intro x hx
    obtain ⟨y, hy, -, hflags, -⟩ := helts x hx
    have hflag : ∀ flag, x.flagIsSet flag = y.flagIsSet flag := fun flag => by
      rw [XmitqElt.flagIsSet, XmitqElt.flagIsSet, hflags]
    rw [hflag, hflag, hfrag]
    exact h.flags y hy

theorem inv_timer {s : State} (h : Inv s) : Inv { s with xq := xmitqTimer s.xq } := by
  rw [xmitqTimer]
  cases hqueue : s.xq.queue with
  | nil => exact h
  | cons xqe rest =>
    have hflags := h.flags
    have hc := h.cwindow
    have hf := h.freqs
    have hnodup := h.nodup
    have hagain := h.again
    rw [hqueue] at hflags hc hf hnodup hagain
    rw [← List.singleton_append, window_append, add_comm] at hc
    rw [← List.singleton_append, requests_append, add_comm] at hf
    obtain ⟨again, hrexmitq⟩ : ∃ again, again = if s.xq.firstUnsent = some xqe.ptr then s.xq.rexmitq
        else [xqe.ptr] := ⟨_, rfl⟩
    dsimp only
    rw [← hrexmitq]
    -- the head, if it was sent; else nothing was sent at all
    have hsentPart : again = [] ∨ s.xq.firstUnsent ≠ some xqe.ptr ∧ again = [xqe.ptr] := by
      rw [hrexmitq]
      split
      · rename_i hunsent
        refine .inl (List.eq_nil_iff_forall_not_mem.mpr fun p hp => ?_)
        have hmem := hagain p hp
        rw [sentPart, List.takeWhile_cons_of_neg (by simp [hunsent])] at hmem
        exact List.not_mem_nil hmem
      · exact .inr ⟨‹_›, rfl⟩
    refine h.retire ?_ (outOfWindow_frame _ xqe).1 (outOfWindow_frame _ xqe).2.2 ?_ ?_ ?_ ?_ ?_ ?_
    all_goals dsimp only
    · rw [hqueue]
      rfl
    · intro x hx
      rw [hqueue]
      rcases List.mem_cons.mp hx with rfl | hx
      · exact ⟨xqe, List.mem_cons_self, rfl, rfl, fun _ => rfl⟩
      · exact ⟨x, List.mem_cons_of_mem _ hx, rfl, rfl, id⟩
    · rw [(outOfWindow_frame _ xqe).2.1, hqueue]
      intro p hp
      rcases hsentPart with hnil | ⟨hne, hone⟩
      · rw [hnil] at hp
        cases hp
      · rw [hone] at hp
        rw [sentPart, List.takeWhile_cons_of_pos (by simpa using hne), List.mem_singleton.mp hp]
        exact List.mem_cons_self
    · rw [(outOfWindow_frame _ xqe).2.1]
      rcases hsentPart with hnil | ⟨-, hone⟩
      · exact hnil ▸ List.nodup_nil
      · exact hone ▸ List.nodup_singleton _
    · rw [(outOfWindow_frame _ xqe).2.1]
      intro x hx hmem
      rcases List.mem_cons.mp hx with rfl | hx
      · rfl
      · rcases hsentPart with hnil | ⟨-, hone⟩
        · rw [hnil] at hmem
          cases hmem
        · rw [hone] at hmem
          have hin := List.mem_map_of_mem (f := XmitqElt.ptr) hx
          rw [List.mem_singleton.mp hmem] at hin
          exact absurd hin (List.nodup_cons.mp hnodup).1
    · rw [window_idle]
      refine (outOfWindow_spec (m := requests rest) (hflags xqe List.mem_cons_self).1 ?_ ?_).1
      · exact hc
      · exact hf
    · rw [requests_idle]
      refine (outOfWindow_spec (n := window rest) (hflags xqe List.mem_cons_self).1 ?_ ?_).2
      · exact hc
      · exact hf

theorem countP_idle (l : List XmitqElt) :
    window (l.map fun xqe => { xqe with inCwindow := false }) = 0 ∧
      requests (l.map fun xqe => { xqe with inCwindow := false }) = 0 := by
  induction l with
  | nil => exact ⟨rfl, rfl⟩
  | cons xqe rest ih =>
    rw [List.map_cons, window_idle, requests_idle]
    exact ih

theorem inv_restart {s : State} (h : Inv s) : Inv { s with xq := xmitqRestart s.xq } := by
  rw [xmitqRestart]
  split
  · exact h
  · have hsplit : sentPart s.xq.firstUnsent s.xq.queue ++ unsentPart s.xq.firstUnsent s.xq.queue =
        s.xq.queue := List.takeWhile_append_dropWhile
    have hidle := h.idle
    have hagain := h.again
    have hnodup := h.nodup
    have hc := h.cwindow
    have hf := h.freqs
    obtain ⟨sent, hsent⟩ : ∃ sent, sent = sentPart s.xq.firstUnsent s.xq.queue := ⟨_, rfl⟩
    obtain ⟨unsent, hunsent⟩ : ∃ unsent, unsent = unsentPart s.xq.firstUnsent s.xq.queue := ⟨_, rfl⟩
    -- the sent part leaves the window, so the counters count the unsent part
    rw [← hsent, ← hunsent] at hsplit
    rw [← hsplit, window_append, add_comm] at hc
    rw [← hsplit, requests_append, add_comm] at hf
    obtain ⟨hc', hf', hfirst, -, hfrag⟩ := outOfWindow_foldl
      (fun x hx => (h.flags x (hsplit ▸ List.mem_append_left _ hx)).1) hc hf
    dsimp only
    rw [← hsent, ← hunsent]
    refine h.retire ?_ hfirst hfrag ?_ ?_ ?_ ?_ ?_ ?_
    all_goals dsimp only
    · rw [← hsplit, ptrs_append, ptrs_append]
      congr 1
      exact List.map_map ..
    · intro x hx
      rcases List.mem_append.mp hx with hx | hx
      · obtain ⟨y, hy, rfl⟩ := List.mem_map.mp hx
        exact ⟨y, hsplit ▸ List.mem_append_left _ hy, rfl, rfl, fun _ => rfl⟩
      · exact ⟨x, hsplit ▸ List.mem_append_right _ hx, rfl, rfl, id⟩
    · split
      · exact hagain
      · rw [hsent]
        exact fun p hp => hp
    · split
      · exact h.againNodup
      · rw [← hsplit, ptrs_append] at hnodup
        exact hnodup.of_append_left
    · intro x hx hmem
      rcases List.mem_append.mp hx with hx | hx
      · obtain ⟨y, hy, rfl⟩ := List.mem_map.mp hx
        rfl
      · refine hidle x (hsplit ▸ List.mem_append_right _ hx) (List.mem_append_right _ ?_)
        exact hunsent ▸ List.mem_map_of_mem hx
    · rw [window_append, (countP_idle sent).1, Nat.zero_add]
      exact hc'
    · rw [requests_append, (countP_idle sent).2, Nat.zero_add]
      exact hf'

/-! ### The blast -/

/-- A fack is asked for as the flag says. -/
theorem noFack_sent (flags : BitVec 16) (asks : Bool) :
    decide ((if asks then flags &&& ~~~noFack else flags ||| noFack) &&& noFack ≠ 0) = !asks := by
  cases asks with
  | true =>
    have hself : ~~~noFack &&& noFack = 0 := by decide
    rw [if_pos rfl, BitVec.and_assoc, hself]
    simp
  | false =>
    rw [if_neg Bool.false_ne_true, Bool.not_false, decide_eq_true_eq]
    intro hzero
    have hbit := congrArg (BitVec.getLsbD · 3) hzero
    simp [noFack] at hbit

theorem lastFrag_sent (flags : BitVec 16) (asks : Bool) :
    (if asks then flags &&& ~~~noFack else flags ||| noFack) &&& lastFrag = flags &&& lastFrag := by
  cases asks with
  | true =>
    have hother : ~~~noFack &&& lastFrag = lastFrag := by decide
    rw [if_pos rfl, BitVec.and_assoc, hother]
  | false =>
    have hother : noFack &&& lastFrag = 0 := by decide
    rw [if_neg Bool.false_ne_true, BitVec.and_or_distrib_right, hother]
    exact BitVec.or_zero

/-- An element that is out of the window is sent. -/
theorem sent_counts {f : XmitqElt → XmitqElt} {p : ℕ} {asks : Bool} (hnodup : (ptrs l).Nodup)
    (hmem : p ∈ ptrs l) (hother : ∀ x ∈ l, x.ptr ≠ p → f x = x)
    (hsent : ∀ x ∈ l, x.ptr = p → x.inCwindow = false ∧ (f x).inCwindow = true ∧
      (f x).flagIsSet noFack = !asks) :
    window (l.map f) = window l + 1 ∧ requests (l.map f) = requests l + if asks then 1 else 0 := by
  induction l with
  | nil => cases hmem
  | cons xqe rest ih =>
    obtain ⟨hnot, hnodup⟩ := List.nodup_cons.mp hnodup
    rw [List.map_cons, window_cons, requests_cons, window_cons, requests_cons]
    by_cases hp : xqe.ptr = p
    · -- no other element has this address
      have hrest : rest.map f = rest := by
        refine (List.map_congr_left fun x hx => hother x (List.mem_cons_of_mem _ hx) ?_).trans
          (List.map_id' rest)
        exact fun hx' => hnot (hp ▸ hx' ▸ List.mem_map_of_mem hx)
      obtain ⟨hout, hin, hask⟩ := hsent xqe List.mem_cons_self hp
      rw [hrest, hout, hin, hask]
      simp
    · have hmem' := (List.mem_cons.mp hmem).resolve_left fun h => hp h.symm
      obtain ⟨hw, hr⟩ := ih hnodup hmem' (fun x hx => hother x (List.mem_cons_of_mem _ hx))
        (fun x hx => hsent x (List.mem_cons_of_mem _ hx))
      rw [hother xqe List.mem_cons_self hp, hw, hr]
      exact ⟨by omega, by omega⟩

/-- What the loop of a blast needs: what is to be sent is on the queue and out of the window. -/
structure Ready (todo : List ℕ) (xq : Xmitq) : Prop where
  nodup : (ptrs xq.queue).Nodup
  once : todo.Nodup
  mem : ∀ p ∈ todo, p ∈ ptrs xq.queue
  idle : ∀ xqe ∈ xq.queue, xqe.ptr ∈ todo → xqe.inCwindow = false
  flags : ∀ xqe ∈ xq.queue, xqe.flagIsSet lastFrag = false ∧
    (xq.isFrag = false → xqe.flagIsSet noFack = false)

/-- What it does to the queue: the elements at `went` are sent, and `asked` facks are asked for. -/
structure Blasted (xq xq' : Xmitq) (went : List ℕ) (asked : ℕ) : Prop where
  ptrs : ptrs xq'.queue = ptrs xq.queue
  isFrag : xq'.isFrag = xq.isFrag
  others : ∀ xqe ∈ xq'.queue, xqe.ptr ∉ went → xqe ∈ xq.queue
  flags : ∀ xqe ∈ xq'.queue, xqe.flagIsSet lastFrag = false ∧
    (xq'.isFrag = false → xqe.flagIsSet noFack = false)
  cwindow : xq'.cwindowSize = xq.cwindowSize
  window : window xq'.queue = window xq.queue + went.length
  freqs : xq'.freqsOut = xq.freqsOut + BitVec.ofNat 8 asked
  requests : requests xq'.queue = requests xq.queue + asked

theorem Blasted.trans {xq xq' xq'' : Xmitq} {went went' : List ℕ} {asked asked' : ℕ}
    (h : Blasted xq xq' went asked) (h' : Blasted xq' xq'' went' asked') :
    Blasted xq xq'' (went ++ went') (asked + asked') where
  ptrs := h'.ptrs.trans h.ptrs
  isFrag := h'.isFrag.trans h.isFrag
  others := fun x hx hnot => h.others x
    (h'.others x hx fun hmem => hnot (List.mem_append_right _ hmem))
    fun hmem => hnot (List.mem_append_left _ hmem)
  flags := h'.flags
  cwindow := h'.cwindow.trans h.cwindow
  window := by rw [h'.window, h.window, List.length_append, add_assoc]
  freqs := by rw [h'.freqs, h.freqs, BitVec.ofNat_add, add_assoc]
  requests := by rw [h'.requests, h.requests, add_assoc]

theorem Blasted.next {xq xq' : Xmitq} {went : List ℕ} {asked : ℕ} (h : Blasted xq xq' went asked)
    (next : Option ℕ) : Blasted xq { xq' with firstUnsent := next } went asked :=
  ⟨h.ptrs, h.isFrag, h.others, h.flags, h.cwindow, h.window, h.freqs, h.requests⟩

/-- One packet. -/
theorem xmitElt_spec {xq : Xmitq} {p : ℕ} {todo : List ℕ} {asks : Bool} (h : Ready (p :: todo) xq)
    (hasks : xq.isFrag = false → asks = true) :
    Ready todo (xmitElt asks p xq) ∧
      Blasted xq (xmitElt asks p xq) [p] (if asks then 1 else 0) := by
  obtain ⟨hnot, honce⟩ := List.nodup_cons.mp h.once
  obtain ⟨f, hf⟩ : ∃ f : XmitqElt → XmitqElt, f = fun xqe =>
      if xqe.ptr = p then
        { xqe with
          flags := if xq.isFrag then
              if asks then xqe.flags &&& ~~~noFack else xqe.flags ||| noFack
            else xqe.flags
          inCwindow := true
          serialNum := xq.nextSerialNum }
      else xqe := ⟨_, rfl⟩
  have hqueue : (xmitElt asks p xq).queue = xq.queue.map f := hf ▸ rfl
  have hptr : ∀ x, (f x).ptr = x.ptr := by
    intro x
    rw [hf]
    dsimp only
    split <;> rfl
  have hother : ∀ x, x.ptr ≠ p → f x = x := by
    intro x hne
    rw [hf]
    exact if_neg hne
  -- the flags of the packet itself
  have hthis : ∀ x ∈ xq.queue, x.ptr = p → (f x).inCwindow = true ∧
      (f x).flagIsSet noFack = !asks ∧ (f x).flagIsSet lastFrag = false := by
    intro x hx hp
    obtain ⟨hlast, hask⟩ := h.flags x hx
    rw [hf]
    dsimp only
    rw [if_pos hp]
    refine ⟨rfl, ?_, ?_⟩
    · cases hfrag : xq.isFrag with
      | true => exact noFack_sent x.flags asks
      | false =>
        rw [hasks hfrag]
        exact hask hfrag
    · cases hfrag : xq.isFrag with
      | true =>
        rw [XmitqElt.flagIsSet] at hlast ⊢
        dsimp only
        rw [if_pos rfl, lastFrag_sent]
        exact hlast
      | false => exact hlast
  have hptrs : ptrs (xmitElt asks p xq).queue = ptrs xq.queue := by
    rw [hqueue, ptrs, List.map_map]
    exact List.map_congr_left fun x _ => hptr x
  have hflags : ∀ x ∈ (xmitElt asks p xq).queue, x.flagIsSet lastFrag = false ∧
      ((xmitElt asks p xq).isFrag = false → x.flagIsSet noFack = false) := by
    intro x hx
    rw [hqueue] at hx
    obtain ⟨y, hy, rfl⟩ := List.mem_map.mp hx
    by_cases hp : y.ptr = p
    · obtain ⟨-, hask, hlast⟩ := hthis y hy hp
      refine ⟨hlast, fun hfrag => ?_⟩
      rw [hask, hasks hfrag]
      rfl
    · rw [hother y hp]
      exact h.flags y hy
  obtain ⟨hw, hr⟩ := sent_counts h.nodup (h.mem p List.mem_cons_self) (fun x _ => hother x)
    fun x hx hp => ⟨h.idle x hx (hp ▸ List.mem_cons_self), (hthis x hx hp).1, (hthis x hx hp).2.1⟩
  refine ⟨⟨hptrs ▸ h.nodup, honce, fun q hq => hptrs ▸ h.mem q (List.mem_cons_of_mem _ hq),
    fun x hx hmem => ?_, hflags⟩, ⟨hptrs, rfl, fun x hx hmem => ?_, hflags, rfl, ?_, ?_, ?_⟩⟩
  · rw [hqueue] at hx
    obtain ⟨y, hy, rfl⟩ := List.mem_map.mp hx
    rw [hptr] at hmem
    rw [hother y fun hp => hnot (hp ▸ hmem)]
    exact h.idle y hy (List.mem_cons_of_mem _ hmem)
  · rw [hqueue] at hx
    obtain ⟨y, hy, rfl⟩ := List.mem_map.mp hx
    rw [hptr] at hmem
    rw [hother y fun hp => hmem (hp ▸ List.mem_cons_self)]
    exact hy
  · rw [hqueue, hw]
    rfl
  · cases asks with
    | true => rfl
    | false => exact (add_zero _).symm
  · rw [hqueue, hr]

/-- The blast. -/
theorem xmitLoop_blasted (blast extra n numSent : ℕ) (again unsent : List ℕ) (xq : Xmitq)
    (h : Ready (again ++ unsent) xq) :
    Blasted xq (xmitLoop blast extra n numSent again unsent xq).1 ((again ++ unsent).take n)
        ((xmitLoop blast extra n numSent again unsent xq).2.countP Sent.asksFack) ∧
      (xmitLoop blast extra n numSent again unsent xq).2.map Sent.ptr = (again ++ unsent).take n ∧
      (xq.firstUnsent = unsent.head? →
        (xmitLoop blast extra n numSent again unsent xq).1.firstUnsent =
          (unsent.drop (n - again.length)).head?) ∧
      (xmitLoop blast extra n numSent again unsent xq).2.countP Sent.asksFack =
        (List.range' numSent (min n (again.length + unsent.length))).countP fun i =>
          !xq.isFrag || decide (i = extra) || decide (i = blast) := by
  induction n generalizing numSent again unsent xq with
  | zero =>
    rw [xmitLoop, Nat.zero_min, Nat.zero_sub]
    exact ⟨⟨rfl, rfl, fun _ hx _ => hx, h.flags, rfl, rfl, (add_zero _).symm, rfl⟩, rfl, id, rfl⟩
  | succ n ih =>
    -- one packet, and the rest of the blast
    have hjoin : ∀ {p : ℕ} {asks : Bool} {todo : List ℕ} {xq' : Xmitq} {r : Xmitq × List Sent},
        Blasted xq xq' [p] (if asks then 1 else 0) →
        Blasted xq' r.1 (todo.take n) (r.2.countP Sent.asksFack) →
        Blasted xq r.1 ((p :: todo).take (n + 1))
          ((⟨p, asks⟩ :: r.2 : List Sent).countP Sent.asksFack) := by
      intro p asks todo xq' r hone hrest
      have hboth := hone.trans hrest
      rw [add_comm] at hboth
      rw [List.countP_cons]
      exact hboth
    have hcountJoin : ∀ (k : ℕ) (f : ℕ → Bool),
        (List.range' numSent (min (n + 1) (k + 1))).countP f =
          (List.range' (numSent + 1) (min n k)).countP f + if f numSent then 1 else 0 := by
      intro k f
      rw [Nat.add_min_add_right, List.range'_succ, List.countP_cons]
    have hasks : ∀ b c : Bool, xq.isFrag = false → (!xq.isFrag || b || c) = true := by
      intro b c hfrag
      rw [hfrag]
      rfl
    cases again with
    | cons p again =>
      have hhead : Ready (p :: (again ++ unsent)) xq := h
      obtain ⟨hready, hone⟩ := xmitElt_spec hhead (hasks (numSent = extra) (numSent = blast))
      obtain ⟨hrest, hptrs, hfirst, hcount⟩ := ih (numSent + 1) again unsent _ hready
      rw [xmitLoop, List.length_cons, Nat.add_sub_add_right, Nat.add_right_comm, hcountJoin]
      refine ⟨hjoin hone hrest, ?_, hfirst, ?_⟩
      · rw [List.map_cons, hptrs]
        rfl
      · rw [List.countP_cons, hcount]
        rfl
    | nil =>
      cases unsent with
      | cons p unsent =>
        have hhead : Ready (p :: unsent) xq := h
        obtain ⟨hready, hone⟩ := xmitElt_spec hhead (hasks (numSent = extra) (numSent = blast))
        obtain ⟨hrest, hptrs, hfirst, hcount⟩ := ih (numSent + 1) [] unsent
          { xmitElt (!xq.isFrag || decide (numSent = extra) || decide (numSent = blast)) p xq with
            firstUnsent := unsent.head? }
          ⟨hready.nodup, hready.once, hready.mem, hready.idle, hready.flags⟩
        rw [List.length_nil, Nat.zero_add] at hcount
        rw [xmitLoop, List.length_nil, Nat.zero_add, List.length_cons, hcountJoin]
        refine ⟨hjoin (hone.next unsent.head?) hrest, ?_, fun _ => hfirst rfl, ?_⟩
        · rw [List.map_cons, hptrs]
          rfl
        · rw [List.countP_cons, hcount]
          rfl
      | nil =>
        rw [xmitLoop]
        exact ⟨⟨rfl, rfl, fun _ hx _ => hx, h.flags, rfl, rfl, (add_zero _).symm, rfl⟩, rfl,
          fun hhead => hhead, rfl⟩

/-- What is to be sent is on the queue and out of the window. -/
theorem Inv.ready {s : State} (h : Inv s) :
    Ready (s.xq.rexmitq ++ ptrs (unsentPart s.xq.firstUnsent s.xq.queue)) s.xq where
  nodup := h.nodup
  once := by
    have hnodup := ptrs_parts s.xq.firstUnsent s.xq.queue ▸ h.nodup
    refine List.nodup_append.mpr ⟨h.againNodup, hnodup.of_append_right, fun p hp q hq heq => ?_⟩
    exact List.disjoint_of_nodup_append hnodup (h.again p hp) (heq ▸ hq)
  mem := by
    intro p hp
    rw [ptrs_parts s.xq.firstUnsent s.xq.queue]
    rcases List.mem_append.mp hp with hp | hp
    · exact List.mem_append_left _ (h.again p hp)
    · exact List.mem_append_right _ hp
  idle := h.idle
  flags := h.flags

/-- The addresses of the packets of the next blast. -/
def went (xq : Xmitq) : List ℕ :=
  (xq.rexmitq ++ ptrs (unsentPart xq.firstUnsent xq.queue)).take xq.blastSize.toNat

/-- What a blast does to the queue, and what it adds to the counters. -/
theorem callXmit_spec {s : State} (h : Inv s) :
    ∃ xq high, Blasted s.xq xq (went s.xq) (blastRequests s.xq) ∧
      (went s.xq).length = blastLength s.xq ∧ (callXmit s.xq).2.map Sent.ptr = went s.xq ∧
      xq.firstUnsent = ((ptrs (unsentPart s.xq.firstUnsent s.xq.queue)).drop
        (s.xq.blastSize.toNat - s.xq.rexmitq.length)).head? ∧
      (callXmit s.xq).1 = { xq with
        cwindowSize := s.xq.cwindowSize + BitVec.ofNat 16 (blastLength s.xq)
        highCwindow := high
        rexmitq := []
        blastSize := 0 } := by
  obtain ⟨hblast, hptrs, hfirst, hcount⟩ := xmitLoop_blasted s.xq.blastSize.toNat (extraFack s.xq)
    s.xq.blastSize.toNat 1 _ _ s.xq h.ready
  have hparts : (ptrs (unsentPart s.xq.firstUnsent s.xq.queue)).length =
      (unsentPart s.xq.firstUnsent s.xq.queue).length := List.length_map ..
  have hlen : (xmitLoop s.xq.blastSize.toNat (extraFack s.xq) s.xq.blastSize.toNat 1 s.xq.rexmitq
      (ptrs (unsentPart s.xq.firstUnsent s.xq.queue)) s.xq).2.length = blastLength s.xq := by
    rw [(xmitLoop_sent _ _ _ _ _).1, hparts]
    rfl
  rw [hparts] at hcount
  rw [hcount] at hblast
  refine ⟨_, (callXmit s.xq).1.highCwindow, hblast, ?_, hptrs,
    hfirst (onQueue_eq_head h.onQueue), ?_⟩
  · rw [went, ← hptrs, List.length_map, hlen]
  · rw [callXmit]
    dsimp only
    rw [hlen, hblast.cwindow]

theorem went_eq (xq : Xmitq) : went xq = xq.rexmitq.take xq.blastSize.toNat ++
    (ptrs (unsentPart xq.firstUnsent xq.queue)).take (xq.blastSize.toNat - xq.rexmitq.length) :=
  List.take_append

/-- What is unsent after the blast has not gone with it. -/
theorem Inv.not_mem_went {s : State} (h : Inv s) {p : ℕ}
    (hp : p ∈ (ptrs (unsentPart s.xq.firstUnsent s.xq.queue)).drop
      (s.xq.blastSize.toNat - s.xq.rexmitq.length)) : p ∉ went s.xq := by
  intro hmem
  have honce := h.ready.once
  rw [← List.take_append_drop s.xq.blastSize.toNat (s.xq.rexmitq ++ _)] at honce
  refine List.disjoint_of_nodup_append honce hmem ?_
  rw [List.drop_append]
  exact List.mem_append_right _ hp

/-- The counters are right after a blast only if they have room for it. -/
theorem callXmit_fits {s : State} (h : Inv s)
    (hc : (callXmit s.xq).1.cwindowSize.toNat = window (callXmit s.xq).1.queue)
    (hf : (callXmit s.xq).1.freqsOut.toNat = requests (callXmit s.xq).1.queue) :
    Fits s .callXmit := by
  obtain ⟨xq, high, hblast, hlen, -, -, heq⟩ := callXmit_spec h
  rw [heq] at hc hf
  dsimp only at hc hf
  rw [hblast.window, hlen] at hc
  rw [hblast.requests] at hf
  exact ⟨hc ▸ BitVec.isLt _, hf ▸ BitVec.isLt _⟩

/-- A blast keeps the invariant if they have. -/
theorem inv_callXmit {s s' : State} (h : Inv s) (hfits : Fits s .callXmit)
    (hstep : step s .callXmit = some s') : Inv s' := by
  obtain ⟨hwindow, hrequests⟩ := hfits
  obtain ⟨xq, high, hblast, hlen, hptrs, hfirst, heq⟩ := callXmit_spec h
  obtain rfl := Option.some_inj.mp hstep
  rw [heq]
  have hc := h.cwindow
  have hf := h.freqs
  have hparts := ptrs_parts s.xq.firstUnsent s.xq.queue
  have hsent := h.sent
  have hunsent := h.unsent
  have hidle := h.idle
  have hnodup := h.nodup
  have hgoes := went_eq s.xq
  have hstays : ∀ p ∈ (ptrs (unsentPart s.xq.firstUnsent s.xq.queue)).drop
      (s.xq.blastSize.toNat - s.xq.rexmitq.length), p ∉ went s.xq := fun _ => h.not_mem_went
  generalize ptrs (sentPart s.xq.firstUnsent s.xq.queue) = before at *
  generalize ptrs (unsentPart s.xq.firstUnsent s.xq.queue) = after at *
  generalize s.xq.blastSize.toNat - s.xq.rexmitq.length = k at *
  -- the first `k` of the unsent elements are sent
  have hq : ptrs xq.queue = (before ++ after.take k) ++ after.drop k := by
    rw [hblast.ptrs, hparts, List.append_assoc, List.take_append_drop]
  obtain ⟨hsent', hunsent'⟩ := ptrs_split hq (hq ▸ hblast.ptrs ▸ hnodup)
  rw [← hfirst] at hsent' hunsent'
  have hany : ∀ p, (callXmit s.xq).2.any (fun sent => sent.ptr = p) = true ↔ p ∈ went s.xq := by
    intro p
    rw [← hptrs, List.any_eq_true]
    simp
  refine ⟨?_, hfirst ▸ onQueue_head hq, ?_, ?_, ?_, ?_, ?_, ?_, List.nodup_nil, ?_, hblast.flags,
    ?_, ?_⟩
  all_goals dsimp only
  · rw [hblast.ptrs]
    exact h.tail
  · rw [hblast.ptrs]
    exact h.nodup
  · rw [hblast.ptrs]
    exact h.below
  · intro p hp
    rw [h.fresh p hp, Bool.false_or, Bool.eq_false_iff, ne_eq, hany]
    intro hmem
    exact absurd (h.below p (h.ready.mem p (List.mem_of_mem_take hmem))) hp.not_gt
  · rw [hsent']
    intro p hp
    rw [Bool.or_eq_true, hany, hgoes]
    rcases List.mem_append.mp hp with hp | hp
    · exact .inl (hsent p hp)
    · exact .inr (List.mem_append_right _ hp)
  · rw [hunsent']
    intro p hp
    rw [hunsent p (List.mem_of_mem_drop hp), Bool.false_or, Bool.eq_false_iff, ne_eq, hany]
    exact hstays p hp
  · exact fun p hp => absurd hp List.not_mem_nil
  · rw [hunsent']
    intro x hx hmem
    exact hidle x (hblast.others x hx (hstays _ hmem))
      (List.mem_append_right _ (List.mem_of_mem_drop hmem))
  · rw [BitVec.toNat_add, BitVec.toNat_ofNat, hc, hblast.window, hlen]
    omega
  · rw [hblast.freqs, BitVec.toNat_add, BitVec.toNat_ofNat, hf, hblast.requests]
    omega

/-! ### A fack -/

/-- What is to be sent again after a fack has been sent. -/
theorem fackCommon_again {xq : Xmitq} (hok : XmitqOk xq) {resvs : Resvs} {pkt : FackPkt}
    {r : Result} (hr : fackCommon resvs xq pkt = some r) (hbare : pkt.len = 0 → r.xq.rexmitq = []) :
    ∀ p ∈ r.xq.rexmitq, p ∈ ptrs (sentPart xq.firstUnsent r.xq.queue) := by
  intro p hp
  rcases Nat.eq_zero_or_pos pkt.len with hlen | hlen
  · rw [hbare hlen] at hp
    cases hp
  cases hmask : pkt.usingSelacks with
  | false =>
    rw [fackCommon_of_old hok resvs hlen hmask] at hr
    cases hr
  | true =>
    obtain ⟨hon, hoff⟩ := fackCommon_of_mask hok resvs hmask
    by_cases hun : OnQueue xq.firstUnsent (unmet xq pkt)
    · obtain ⟨r', hr', hhandled, hagain, -⟩ := hon hun
      rw [hr] at hr'
      cases hr'
      obtain ⟨stays, hhandled', hsub⟩ := fackCommon_handled hok hr
      have hnodup : (ptrs r.xq.queue).Nodup :=
        hhandled'.queue ▸ hok.nodup.sublist (hsub.map _)
      have hq : ptrs r.xq.queue = ptrs (unacked xq pkt ++ sentPart xq.firstUnsent (unmet xq pkt)) ++
          ptrs (unsentPart xq.firstUnsent (unmet xq pkt)) := by
        rw [hhandled.queue, ptrs_append, ptrs_parts xq.firstUnsent (unmet xq pkt), ptrs_append,
          List.append_assoc]
      have hsplit := (ptrs_split hq (hq ▸ hnodup)).1
      rw [← onQueue_eq_head hun] at hsplit
      rw [hsplit]
      exact hagain.subset hp
    · rw [hoff hun] at hr
      cases hr

theorem inv_fack {s : State} (h : Inv s) {resvs : Resvs} {pkt : FackPkt} {r : Result}
    (hr : fackCommon resvs s.xq pkt = some r) :
    Inv { s with xq := r.xq, tail := fackTail s.xq pkt s.tail } := by
  have hok : XmitqOk s.xq := ⟨h.onQueue, h.nodup⟩
  have hstart : Counts (fun flags => s.xq.isFrag = false → flags &&& noFack = 0) (atStart s.xq)
      s.xq.queue := by
    refine ⟨h.nodup, fun x hx => ⟨(h.flags x hx).1, fun hfrag => ?_⟩, ?_, ?_, h.cwindow, h.freqs⟩
    · simpa [XmitqElt.flagIsSet] using (h.flags x hx).2 hfrag
    · exact fun _ hp => absurd hp List.not_mem_nil
    · exact fun _ hx => absurd hx List.not_mem_nil
  obtain ⟨hcounts, hfrag, htail, hbare⟩ := fackCommon_counts hok hr hstart h.tail
  obtain ⟨stays, hhandled, hsub⟩ := fackCommon_handled hok hr
  have hall : (atEnd r.xq).kept ++ [] = r.xq.queue := List.append_nil _
  have hmem : ∀ p ∈ ptrs r.xq.queue, p ∈ ptrs s.xq.queue := by
    intro p hp
    rw [hhandled.queue] at hp
    exact (hsub.map XmitqElt.ptr).subset hp
  have hnodup : (ptrs r.xq.queue).Nodup := hall ▸ hcounts.nodup
  have hsplit := ptrs_parts s.xq.firstUnsent r.xq.queue
  have hfirst := onQueue_eq_head h.onQueue
  refine ⟨htail, ?_, hnodup, fun p hp => h.below p (hmem p hp), h.fresh, ?_, ?_, ?_, ?_, ?_, ?_, ?_,
    ?_⟩
  all_goals dsimp only
  · rw [hhandled.firstUnsent]
    intro p hp
    rw [hsplit, hhandled.unsent]
    exact List.mem_append_right _ (List.mem_of_head? (hfirst ▸ hp))
  · rw [hhandled.firstUnsent]
    intro p hp
    -- it was on the queue before, and not in the unsent part, which is the same
    have hold := hmem p (hsplit ▸ List.mem_append_left _ hp)
    rw [ptrs_parts s.xq.firstUnsent s.xq.queue, ← hhandled.unsent] at hold
    refine h.sent p ((List.mem_append.mp hold).resolve_right fun hun => ?_)
    exact List.disjoint_of_nodup_append (hsplit ▸ hnodup) hp hun
  · rw [hhandled.firstUnsent, hhandled.unsent]
    exact h.unsent
  · rw [hhandled.firstUnsent]
    exact fackCommon_again hok hr hbare
  · exact (hhandled.queue ▸ hnodup).sublist hhandled.rexmitq
  · rw [hhandled.firstUnsent]
    intro x hx hin
    rcases List.mem_append.mp hin with hin | hin
    · exact hcounts.idle x hx hin
    · obtain ⟨y, hy, hptr⟩ := List.mem_map.mp hin
      obtain rfl := eq_of_ptr hnodup ((List.dropWhile_sublist _).subset hy) hx hptr
      rw [hhandled.unsent] at hy hin
      exact h.idle y ((List.dropWhile_sublist _).subset hy) (List.mem_append_right _ hin)
  · intro x hx
    obtain ⟨hlast, hask⟩ := hcounts.flags x (hall ▸ hx)
    refine ⟨hlast, fun hf => ?_⟩
    rw [XmitqElt.flagIsSet, hask (hfrag ▸ hf)]
    rfl
  · rw [← hall]
    exact hcounts.cwindow
  · rw [← hall]
    exact hcounts.freqs

/-- The routine comes through exactly the facks that fit. -/
theorem fackCommon_isSome {s : State} (h : Inv s) (resvs : Resvs) (pkt : FackPkt) :
    (∃ r, fackCommon resvs s.xq pkt = some r) ↔ Fits s (.fack resvs pkt) := by
  have hok : XmitqOk s.xq := ⟨h.onQueue, h.nodup⟩
  rw [Fits]
  rcases Nat.eq_zero_or_pos pkt.len with hlen | hlen
  · obtain ⟨r, hr, -⟩ := fackCommon_of_bare hok resvs hlen
    exact iff_of_true ⟨r, hr⟩ (.inl hlen)
  rw [or_iff_right hlen.ne']
  cases hmask : pkt.usingSelacks with
  | false =>
    rw [fackCommon_of_old hok resvs hlen hmask]
    refine iff_of_false ?_ fun hfits => Bool.false_ne_true hfits.1
    rintro ⟨r, hr⟩
    cases hr
  | true =>
    obtain ⟨hon, hoff⟩ := fackCommon_of_mask hok resvs hmask
    rw [and_iff_right rfl, ← onQueue_unmet_iff hok]
    constructor
    · rintro ⟨r, hr⟩
      by_contra hun
      rw [hoff hun] at hr
      cases hr
    · intro hun
      obtain ⟨r, hr, -⟩ := hon hun
      exact ⟨r, hr⟩

/-! ### The runs -/

/-- What one event keeps. -/
theorem step_spec {s : State} (h : Inv s) (e : Event) :
    (Fits s e → ∃ s', step s e = some s' ∧ Inv s' ∧ InOrder s') ∧
      ((∃ s', step s e = some s' ∧ InOrder s') → Fits s e) := by
  have hkept : ∀ {s' : State}, step s e = some s' → Inv s' →
      ∃ s', step s e = some s' ∧ Inv s' ∧ InOrder s' := fun hs' hinv =>
    ⟨_, hs', hinv, hinv.inOrder⟩
  cases e with
  | append push =>
    have hs' := append_spec h push
    exact ⟨fun _ => hkept hs' (inv_append h hs'), fun _ => trivial⟩
  | ready blast =>
    refine ⟨fun _ => hkept rfl ?_, fun _ => trivial⟩
    exact h.retire rfl rfl rfl (fun x hx => ⟨x, hx, rfl, rfl, id⟩) h.again h.againNodup
      (fun x hx hmem => h.idle x hx (List.mem_append_left _ hmem)) h.cwindow h.freqs
  | callXmit =>
    refine ⟨fun hfits => hkept rfl (inv_callXmit h hfits rfl), ?_⟩
    rintro ⟨s', hs', hin⟩
    obtain rfl := Option.some_inj.mp hs'
    exact callXmit_fits h hin.cwindow hin.freqs
  | timer => exact ⟨fun _ => hkept rfl (inv_timer h), fun _ => trivial⟩
  | restart => exact ⟨fun _ => hkept rfl (inv_restart h), fun _ => trivial⟩
  | fack resvs pkt =>
    refine ⟨fun hfits => ?_, ?_⟩
    · obtain ⟨r, hr⟩ := (fackCommon_isSome h resvs pkt).mpr hfits
      exact hkept (congrArg (Option.map _) hr) (inv_fack h hr)
    · rintro ⟨s', hs', -⟩
      obtain ⟨r, hr, -⟩ := Option.map_eq_some_iff.mp hs'
      exact (fackCommon_isSome h resvs pkt).mp ⟨r, hr⟩

/-- From `rpc__dg_xmitq_reinit` on, the queue is in order at all times exactly if every event
fits. -/
theorem queue_kept_iff (xq : Xmitq) (es : List Event) :
    (∀ n, ∃ s, Runs.exec step (reinit xq) (es.take n) = some s ∧ InOrder s) ↔
      Runs.Along step Fits (reinit xq) es :=
  Runs.forall_take_iff_along_of_partial (fun _ e h => step_spec h e) (inv_reinit xq)
    (inv_reinit xq).inOrder

/-- A packet is sent by itself, and so it asks for a fack. -/
def packet : List Event := [.append false, .ready 1, .callXmit]

/-- All is sent, and every packet has asked for a fack. -/
structure AllSent (s : State) (n : ℕ) : Prop extends Inv s where
  noneAgain : s.xq.rexmitq = []
  noneLeft : ptrs (unsentPart s.xq.firstUnsent s.xq.queue) = []
  window : window s.xq.queue = n
  requests : requests s.xq.queue = n

/-- The one element that is to be sent. -/
theorem exec_append_ready {s : State} {n : ℕ} (h : AllSent s n) :
    ∃ s' p, Runs.exec step s [.append false, .ready 1] = some s' ∧ Inv s' ∧ s'.xq.blastSize = 1 ∧
      s'.xq.rexmitq = [] ∧ ptrs (unsentPart s'.xq.firstUnsent s'.xq.queue) = [p] ∧
      window s'.xq.queue = n ∧ requests s'.xq.queue = n := by
  have happend := append_spec h.toInv false
  obtain ⟨s', hs', hinv, -⟩ := (step_spec (inv_append h.toInv happend) (.ready 1)).1 trivial
  obtain rfl := Option.some_inj.mp hs'
  rw [h.noneLeft] at happend hinv
  have hq : ptrs (s.xq.queue ++ [{ ptr := s.allocated, fragnum := s.xq.nextFragnum }]) =
      ptrs s.xq.queue ++ [s.allocated] := ptrs_append ..
  have hsplit := (ptrs_split hq (hq ▸ hinv.nodup)).2
  refine ⟨_, s.allocated, ?_, hinv, rfl, h.noneAgain, hsplit, ?_, ?_⟩
  · rw [Runs.exec_cons_eq_some]
    exact ⟨_, happend, rfl⟩
  · dsimp only
    rw [window_append, h.window]
    rfl
  · dsimp only
    rw [requests_append, h.requests]
    rfl

/-- What one packet adds. -/
theorem exec_packet {s : State} {n : ℕ} (h : AllSent s n) :
    ∃ s', Runs.exec step s packet = some s' ∧ (n + 1 < 2 ^ 8 → AllSent s' (n + 1)) ∧
      (InOrder s' → n + 1 < 2 ^ 8) := by
  obtain ⟨s₁, p, hexec, hinv, hblast, hagain, hleft, hw, hr⟩ := exec_append_ready h
  have hlen : blastLength s₁.xq = 1 := by
    have hone : (unsentPart s₁.xq.firstUnsent s₁.xq.queue).length = 1 := by
      rw [← List.length_map XmitqElt.ptr]
      exact congrArg List.length hleft
    rw [blastLength, hblast, hagain, hone]
    rfl
  have hreq : blastRequests s₁.xq = 1 := by
    rw [blastRequests, hlen, hblast]
    simp
  obtain ⟨xq, high, hsent, hwent, -, hfirst, heq⟩ := callXmit_spec hinv
  rw [hblast, hagain, hleft] at hfirst
  have hfits : Fits s₁ .callXmit ↔ n + 1 < 2 ^ 8 := by
    rw [Fits, hlen, hreq, hw, hr]
    omega
  refine ⟨_, ?_, fun hn => ⟨inv_callXmit hinv (hfits.mpr hn) rfl, ?_, ?_, ?_, ?_⟩,
    fun hin => hfits.mp (callXmit_fits hinv hin.cwindow hin.freqs)⟩
  · have happend : Runs.exec step s packet = (Runs.exec step s [.append false, .ready 1]).bind
        fun t => Runs.exec step t [.callXmit] := Runs.exec_append s [_, _] [_]
    rw [happend, hexec]
    rfl
  · rfl
  · dsimp only
    rw [heq]
    dsimp only
    rw [hfirst]
    exact congrArg ptrs unsentPart_none
  · dsimp only
    rw [heq, hsent.window, hwent, hlen, hw]
  · dsimp only
    rw [heq, hsent.requests, hreq, hr]

theorem exec_packets (n : ℕ) (hn : n < 2 ^ 8) :
    ∃ s, Runs.exec step (reinit {}) (List.replicate n packet).flatten = some s ∧
      AllSent s n := by
  induction n with
  | zero => exact ⟨_, rfl, ⟨inv_reinit _, rfl, rfl, rfl, rfl⟩⟩
  | succ n ih =>
    obtain ⟨s, hs, hall⟩ := ih (by omega)
    obtain ⟨s', hs', hnext, -⟩ := exec_packet hall
    refine ⟨s', ?_, hnext hn⟩
    rw [List.replicate_succ', List.flatten_append, List.flatten_singleton, Runs.exec_append, hs]
    exact hs'

/-- A fack that acknowledges the only fragment that was sent, with a mask of two words without a
bit: the first one is met by the unsent fragment, and the scan behind it runs off the queue.  And
after 256 packets without a fack `freqs_out` is 0. -/
theorem mask_past_unsent :
    Runs.exec step (reinit {}) [.append false, .append false, .ready 1, .callXmit,
        .fack {} { fragnum := 0, len := 28, selackLen := 2 }] = none ∧
      ∃ s, Runs.exec step (reinit {}) (List.replicate 256 packet).flatten = some s ∧
        ¬ InOrder s := by
  constructor
  · rw [← Option.isNone_iff_eq_none]
    decide
  · -- the counter is right up to 255, and has no room for one more
    obtain ⟨s, hs, hall⟩ := exec_packets 255 (by norm_num)
    obtain ⟨s', hs', -, hback⟩ := exec_packet hall
    refine ⟨s', ?_, fun hin => absurd (hback hin) (by norm_num)⟩
    rw [List.replicate_succ', List.flatten_append, List.flatten_singleton, Runs.exec_append, hs]
    exact hs'

end XmitQueue

end Dg
