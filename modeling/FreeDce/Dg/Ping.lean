/-
Pinging (`recv_state_timer` in dgccall.c, `RPC_PING_INFO_NEXT` in dg.h).

A client call that hears nothing from its server pings it, with a delay that is
doubled from ping to ping, and gives up after a time that depends on the com
timeout.  The delay is an `int` that is shifted by the number of pings, which
nothing bounds.

* `timerTick_inv` — what a tick does to a call that is pinging, as long as fewer
  than 29 pings are sent;
* `pingsInTime_iff` — over a whole run, the delays stay in their range and the
  call is given up in time if and only if no tick sends a 29th ping or falls on
  the end of the ping time (`not_pingsInTime`).
-/
import FreeDce.Lib.Runs

namespace Dg

open Runs

/-! ### The timer -/

/-- `RPC_CLOCK_SEC`: the clock ticks five times a second. -/
def clockSec (sec : ℕ) : BitVec 32 := BitVec.ofNat 32 (sec * 5)

def firstPingInterval : BitVec 32 := clockSec 2
def maxInterPingTime : BitVec 32 := clockSec 8
def broadcastWaitTime : BitVec 32 := clockSec 3

/-- `rpc_c_binding_infinite_timeout`, the last of the com timeouts. -/
def infiniteTimeout : Fin 11 := 10

/-- `ccall_com_timeout_params`; the transmit queue's table has the same entries. -/
def maxPingTime (knob : Fin 11) : BitVec 32 :=
  clockSec ([1, 2, 4, 8, 15, 30, 60, 120, 240, 480, 0].getD knob.val 0)

/-- `rpc_dg_ping_info_t`. -/
structure PingInfo where
  nextTime : BitVec 32
  startTime : BitVec 32 := 0
  count : BitVec 16 := 0
  pinging : Bool := false

/-- What `RPC_PING_INFO_NEXT` adds to the current time: the smaller of two `int`s,
one of them shifted by the number of pings.  The shift is taken modulo `2^32`;
from a count of 28 on it does not fit into an `int`. -/
def pingDelay (count : BitVec 16) : BitVec 32 :=
  if maxInterPingTime.slt (firstPingInterval <<< count.toNat) then maxInterPingTime
  else firstPingInterval <<< count.toNat

/-- `RPC_PING_INFO_NEXT`. -/
def pingInfoNext (ping : PingInfo) (now : BitVec 32) : PingInfo :=
  { ping with nextTime := now + pingDelay ping.count, count := ping.count + 1 }

/-- The statuses with which the timer routines end a call. -/
inductive CcallStatus
  | ok | commFailure | cancelTimeout | callTimeout | other
deriving DecidableEq, Repr

/-- The part of a client call that its timer looks at in the receive state. -/
structure RecvCcall where
  status : CcallStatus := .ok
  /-- `rq->all_pkts_recvd` -/
  allPktsRecvd : Bool := false
  /-- `xq->base_flags` has the broadcast flag. -/
  broadcast : Bool := false
  startTime : BitVec 32 := 0
  comTimeoutKnob : Fin 11 := 5
  ping : PingInfo
  /-- `xq->awaiting_ack` and `xq->awaiting_ack_timestamp` -/
  awaitingAck : Option (BitVec 32) := none
  /-- `cancel.local_count` and `cancel.timeout_time` -/
  cancelLocalCount : ℕ := 0
  cancelTimeoutTime : BitVec 32 := 0
  /-- `timeout_stamp`, zero if the call has no time limit. -/
  timeoutStamp : BitVec 32 := 0

/-- `rpc__clock_aged`. -/
def clockAged (now time interval : BitVec 32) : Bool := (time + interval).ule now

/-- `rpc__dg_call_signal_failure`: the first failure stays. -/
def ccallSignalFailure (ccall : RecvCcall) (st : CcallStatus) : RecvCcall :=
  if ccall.status = .ok then { ccall with status := st } else ccall

/-- There were local cancels, and the time to wait for the server after them is over. -/
def cancelTimedOut (ccall : RecvCcall) (now : BitVec 32) : Bool :=
  ccall.cancelLocalCount ≠ 0 ∧ ccall.cancelTimeoutTime ≠ 0 ∧ ccall.cancelTimeoutTime.ule now

/-- `ccall_cancel_timer`, as far as it can fail the call. -/
def ccallCancelTimer (ccall : RecvCcall) (now : BitVec 32) : RecvCcall :=
  if cancelTimedOut ccall now then ccallSignalFailure ccall .cancelTimeout else ccall

/-- It is too late to go on pinging. -/
def pingTimedOut (ccall : RecvCcall) (now : BitVec 32) : Bool :=
  clockAged now ccall.ping.startTime (maxPingTime ccall.comTimeoutKnob) ∧
    ccall.comTimeoutKnob ≠ infiniteTimeout

/-- `rpc__dg_xmitq_awaiting_ack_tmo`. -/
def xmitqAwaitingAckTmo (ccall : RecvCcall) (now : BitVec 32) : Bool :=
  match ccall.awaitingAck with
  | none => false
  | some timestamp =>
    clockAged now timestamp (maxPingTime ccall.comTimeoutKnob) ∧
      ccall.comTimeoutKnob ≠ infiniteTimeout

/-- `recv_state_timer`, with the number of pings it sends. -/
def recvStateTimer (ccall : RecvCcall) (now : BitVec 32) : RecvCcall × ℕ :=
  if ccall.status ≠ .ok ∨ ccall.allPktsRecvd then
    (ccall, 0)
  else
    let ccall := ccallCancelTimer ccall now
    if ccall.broadcast then
      if clockAged now ccall.startTime broadcastWaitTime then
        (ccallSignalFailure ccall .commFailure, 0)
      else (ccall, 0)
    else if ccall.ping.pinging = false then
      if ccall.ping.nextTime.ule now then
        if xmitqAwaitingAckTmo ccall now then
          (ccallSignalFailure ccall .commFailure, 0)
        else
          let ping := { ccall.ping with pinging := true, count := 0, startTime := now }
          ({ ccall with ping := pingInfoNext ping now }, 1)
      else (ccall, 0)
    else if pingTimedOut ccall now then
      (ccallSignalFailure ccall .commFailure, 0)
    else if ccall.ping.nextTime.ule now then
      ({ ccall with ping := pingInfoNext ccall.ping now }, 1)
    else (ccall, 0)

/-- `ccall_timeout_timer`. -/
def ccallTimeoutTimer (ccall : RecvCcall) (now : BitVec 32) : RecvCcall :=
  if ccall.timeoutStamp = 0 then ccall
  else if ccall.timeoutStamp.ule now then ccallSignalFailure ccall .callTimeout
  else ccall

/-- `rpc__dg_ccall_timer` for a call in the receive state. -/
def ccallTimer (ccall : RecvCcall) (now : BitVec 32) : RecvCcall × ℕ :=
  let res := recvStateTimer ccall now
  (ccallTimeoutTimer res.1 now, res.2)

/-! ### Runs -/

/-- A call, the last reading of the clock, and the delays computed so far, the
latest first. -/
structure Pinger where
  ccall : RecvCcall
  clock : ℕ := 0
  delays : List ℤ := []

/-- While the server is silent, only the clock and local cancels reach the call. -/
inductive PingEvent
  | tick (now : ℕ)
  | localCancel (timeoutTime : BitVec 32)

/-- One event.  The clock does not run backwards, and it does not reach `2^31`. -/
def pingStep (s : Pinger) : PingEvent → Option Pinger
  | .tick now =>
    if s.clock ≤ now ∧ now < 2 ^ 31 then
      let res := ccallTimer s.ccall (BitVec.ofNat 32 now)
      some
        { ccall := res.1
          clock := now
          delays :=
            if res.2 = 0 then s.delays
            else (res.1.ping.nextTime - BitVec.ofNat 32 now).toInt :: s.delays }
    else none
  | .localCancel timeoutTime =>
    some { s with ccall :=
      { s.ccall with
        cancelLocalCount := s.ccall.cancelLocalCount + 1
        cancelTimeoutTime := if s.ccall.cancelTimeoutTime = 0 then timeoutTime
          else s.ccall.cancelTimeoutTime } }

/-- The delays lie between the first interval and the longest, and none is smaller
than the one before. -/
def DelaysOk (delays : List ℤ) : Prop :=
  (∀ d ∈ delays, firstPingInterval.toInt ≤ d ∧ d ≤ maxInterPingTime.toInt) ∧
    delays.Pairwise (· ≥ ·)

instance (delays : List ℤ) : Decidable (DelaysOk delays) := inferInstanceAs (Decidable (_ ∧ _))

/-- The event leaves the delays as they should be, and a call that was pinging and
has not failed for another reason is failed if and only if more than the ping
time has passed since pinging began. -/
def PingsInTime (s : Pinger) (e : PingEvent) : Prop :=
  ∀ s', pingStep s e = some s' → DelaysOk s'.delays ∧
    ∀ now, e = .tick now → s.ccall.status = .ok → s.ccall.ping.pinging = true →
      (s'.ccall.status = .ok ∨ s'.ccall.status = .commFailure) →
      (s'.ccall.status = .commFailure ↔ s.ccall.comTimeoutKnob ≠ infiniteTimeout ∧
        s.ccall.ping.startTime.toNat + (maxPingTime s.ccall.comTimeoutKnob).toNat < now)

/-- Where the timer can go wrong: no tick sends a ping when 28 were sent, and no tick
falls on the very end of the ping time. -/
def PingsFew (s : Pinger) : PingEvent → Prop
  | .localCancel _ => True
  | .tick now =>
    s.clock ≤ now → now < 2 ^ 31 → s.ccall.status = .ok → s.ccall.ping.pinging = true →
      (pingTimedOut s.ccall (BitVec.ofNat 32 now) = false →
        s.ccall.ping.nextTime.ule (BitVec.ofNat 32 now) = true → s.ccall.ping.count.toNat < 28) ∧
      (cancelTimedOut s.ccall (BitVec.ofNat 32 now) = false →
        s.ccall.comTimeoutKnob ≠ infiniteTimeout →
        now ≠ s.ccall.ping.startTime.toNat + (maxPingTime s.ccall.comTimeoutKnob).toNat)

instance (s : Pinger) : (e : PingEvent) → Decidable (PingsFew s e)
  | .localCancel _ => inferInstanceAs (Decidable True)
  | .tick _ => inferInstanceAs (Decidable (_ → _))

/-! ### One tick -/

section Tick

variable {ccall : RecvCcall} {now : BitVec 32}

theorem ccallCancelTimer_eq (ccall : RecvCcall) (now : BitVec 32) :
    ccallCancelTimer ccall now =
      { ccall with
        status := if cancelTimedOut ccall now = true ∧ ccall.status = .ok then .cancelTimeout
          else ccall.status } := by
  unfold ccallCancelTimer ccallSignalFailure
  by_cases hout : cancelTimedOut ccall now = true
  · by_cases hst : ccall.status = .ok <;> simp [hout, hst]
  · simp [hout]

theorem ccallTimeoutTimer_eq (ccall : RecvCcall) (now : BitVec 32) :
    ccallTimeoutTimer ccall now =
      { ccall with
        status :=
          if ccall.timeoutStamp ≠ 0 ∧ ccall.timeoutStamp.ule now = true ∧ ccall.status = .ok
          then .callTimeout else ccall.status } := by
  unfold ccallTimeoutTimer ccallSignalFailure
  by_cases hno : ccall.timeoutStamp = 0
  · rw [if_pos hno, if_neg fun hc => hc.1 hno]
  · rw [if_neg hno]
    by_cases hdue : ccall.timeoutStamp.ule now = true
    · rw [if_pos hdue]
      by_cases hst : ccall.status = .ok
      · rw [if_pos hst, if_pos ⟨hno, hdue, hst⟩]
      · rw [if_neg hst, if_neg fun hc => hst hc.2.2]
    · rw [if_neg hdue, if_neg fun hc => hdue hc.2.1]

theorem ccallTimer_snd (ccall : RecvCcall) (now : BitVec 32) :
    (ccallTimer ccall now).2 = (recvStateTimer ccall now).2 := rfl

theorem ccallTimer_ping (ccall : RecvCcall) (now : BitVec 32) :
    (ccallTimer ccall now).1.ping = (recvStateTimer ccall now).1.ping := by
  rw [ccallTimer, ccallTimeoutTimer_eq]

theorem ccallSignalFailure_frame (ccall : RecvCcall) (st : CcallStatus) :
    ∃ status, ccallSignalFailure ccall st = { ccall with status := status } := by
  unfold ccallSignalFailure
  split_ifs <;> exact ⟨_, rfl⟩

theorem recvStateTimer_frame (ccall : RecvCcall) (now : BitVec 32) :
    ∃ status ping,
      (recvStateTimer ccall now).1 = { ccall with status := status, ping := ping } := by
  obtain ⟨late, hcancel⟩ :
      ∃ status, ccallCancelTimer ccall now = { ccall with status := status } := by
    unfold ccallCancelTimer
    split_ifs
    · exact ccallSignalFailure_frame ccall .cancelTimeout
    · exact ⟨_, rfl⟩
  obtain ⟨status, hfail⟩ := ccallSignalFailure_frame { ccall with status := late } .commFailure
  rw [recvStateTimer]
  dsimp only
  rw [hcancel, hfail]
  split_ifs <;> exact ⟨_, _, rfl⟩

/-- The timer changes only the status and the ping information. -/
theorem ccallTimer_frame (ccall : RecvCcall) (now : BitVec 32) :
    (ccallTimer ccall now).1 = { ccall with
      status := (ccallTimer ccall now).1.status
      ping := (ccallTimer ccall now).1.ping } := by
  obtain ⟨status, ping, hframe⟩ := recvStateTimer_frame ccall now
  rw [ccallTimer, ccallTimeoutTimer_eq, hframe]

/-- The delay is what the next time is later than the time of the ping. -/
theorem nextTime_sub (ping : PingInfo) (now : BitVec 32) :
    (pingInfoNext ping now).nextTime - now = pingDelay ping.count := by
  rw [pingInfoNext, BitVec.add_comm, BitVec.add_sub_cancel]

/-- A call that has failed or has everything does nothing. -/
theorem recvStateTimer_of_done (h : ccall.status ≠ .ok ∨ ccall.allPktsRecvd = true) :
    recvStateTimer ccall now = (ccall, 0) := by
  rw [recvStateTimer, if_pos h]

/-- A call that is not pinging sends its first ping or none. -/
theorem recvStateTimer_of_idle (hidle : ccall.ping.pinging = false) :
    ((recvStateTimer ccall now).2 = 0 ∧ (recvStateTimer ccall now).1.ping = ccall.ping) ∨
    (ccall.broadcast = false ∧ ccall.allPktsRecvd = false ∧ (recvStateTimer ccall now).2 = 1 ∧
      (recvStateTimer ccall now).1.ping =
        pingInfoNext { ccall.ping with pinging := true, count := 0, startTime := now } now) := by
  simp only [recvStateTimer, ccallCancelTimer_eq, ccallSignalFailure, hidle, if_true]
  split_ifs <;> simp_all

/-- A call that is pinging gives up, or sends the next ping, or waits. -/
theorem recvStateTimer_of_pinging (hst : ccall.status = .ok) (hall : ccall.allPktsRecvd = false)
    (hbc : ccall.broadcast = false) (hping : ccall.ping.pinging = true) :
    recvStateTimer ccall now =
      if pingTimedOut ccall now = true then
        (ccallSignalFailure (ccallCancelTimer ccall now) .commFailure, 0)
      else if ccall.ping.nextTime.ule now = true then
        ({ ccallCancelTimer ccall now with ping := pingInfoNext ccall.ping now }, 1)
      else (ccallCancelTimer ccall now, 0) := by
  have hlate : pingTimedOut (ccallCancelTimer ccall now) now = pingTimedOut ccall now := by
    rw [pingTimedOut, ccallCancelTimer_eq]
    rfl
  rw [recvStateTimer, if_neg (by simp [hst, hall])]
  simp only [hlate]
  rw [ccallCancelTimer_eq]
  simp [hbc, hping]

end Tick

/-! ### The delays -/

/-- The delay after ping number `k`. -/
def delayAfter (k : ℕ) : ℤ := (pingDelay (BitVec.ofNat 16 k)).toInt

/-- The delays computed by the first `n` pings, the latest first. -/
def delaysTo (n : ℕ) : List ℤ := ((List.range n).map delayAfter).reverse

theorem delaysTo_succ (n : ℕ) : delaysTo (n + 1) = delayAfter n :: delaysTo n := by
  simp [delaysTo, List.range_succ]

theorem DelaysOk.sublist {delays delays' : List ℤ} (h : DelaysOk delays')
    (hsub : delays.Sublist delays') : DelaysOk delays :=
  ⟨fun d hd => h.1 d (hsub.subset hd), h.2.sublist hsub⟩

/-- The shift fits into an `int` for the first 28 pings. -/
theorem delaysOk_delaysTo {n : ℕ} (hn : n ≤ 28) : DelaysOk (delaysTo n) := by
  have hlast : DelaysOk (delaysTo 28) := by decide
  have hrange : (List.range n).Sublist (List.range 28) := List.range_sublist.mpr hn
  exact hlast.sublist (hrange.map delayAfter).reverse

/-- The delay after the next one is negative. -/
theorem not_delaysOk_delaysTo : ¬ DelaysOk (delaysTo 29) := by decide

/-- What is known of a pinging call as long as every tick meets the condition. -/
structure PingInv (s : Pinger) : Prop where
  idle : s.ccall.ping.pinging = false → s.delays = []
  active : s.ccall.ping.pinging = true → s.ccall.broadcast = false ∧
    s.ccall.allPktsRecvd = false ∧ s.ccall.ping.startTime.toNat < 2 ^ 31 ∧
    ∃ n ≤ 28, s.ccall.ping.count = BitVec.ofNat 16 n ∧ s.delays = delaysTo n

theorem PingInv.delaysOk {s : Pinger} (h : PingInv s) : DelaysOk s.delays := by
  rcases hping : s.ccall.ping.pinging with _ | _
  · rw [h.idle hping]
    decide
  · obtain ⟨-, -, -, n, hn, -, hdelays⟩ := h.active hping
    rw [hdelays]
    exact delaysOk_delaysTo hn

theorem maxPingTime_le (knob : Fin 11) : (maxPingTime knob).toNat ≤ 2400 := by
  have hall : ∀ knob, (maxPingTime knob).toNat ≤ 2400 := by decide
  exact hall knob

/-- While the clock is below `2^31`, the end of the ping time does not wrap. -/
theorem pingTimedOut_iff {ccall : RecvCcall} {now : ℕ}
    (hstart : ccall.ping.startTime.toNat < 2 ^ 31) (hnow : now < 2 ^ 31) :
    pingTimedOut ccall (BitVec.ofNat 32 now) = true ↔ ccall.comTimeoutKnob ≠ infiniteTimeout ∧
      ccall.ping.startTime.toNat + (maxPingTime ccall.comTimeoutKnob).toNat ≤ now := by
  have hmax := maxPingTime_le ccall.comTimeoutKnob
  have hend : (ccall.ping.startTime + maxPingTime ccall.comTimeoutKnob).toNat
      = ccall.ping.startTime.toNat + (maxPingTime ccall.comTimeoutKnob).toNat := by
    rw [BitVec.toNat_add]
    exact Nat.mod_eq_of_lt (by omega)
  have hnow' : (BitVec.ofNat 32 now).toNat = now := by
    rw [BitVec.toNat_ofNat]
    exact Nat.mod_eq_of_lt (by omega)
  simp only [pingTimedOut, clockAged, BitVec.ule, hend, hnow', decide_eq_true_eq]
  exact and_comm

/-- How a tick leaves a pinging call: a cancel that timed out comes first, then the
end of the ping time, then the end of the time for the whole call. -/
theorem ccallTimer_status {ccall : RecvCcall} {now : BitVec 32} (hst : ccall.status = .ok)
    (hall : ccall.allPktsRecvd = false) (hbc : ccall.broadcast = false)
    (hping : ccall.ping.pinging = true) :
    (cancelTimedOut ccall now = true → (ccallTimer ccall now).1.status = .cancelTimeout) ∧
    (cancelTimedOut ccall now = false → pingTimedOut ccall now = true →
      (ccallTimer ccall now).1.status = .commFailure) ∧
    (cancelTimedOut ccall now = false → pingTimedOut ccall now = false →
      (ccallTimer ccall now).1.status ≠ .commFailure) := by
  rw [ccallTimer, ccallTimeoutTimer_eq, recvStateTimer_of_pinging hst hall hbc hping,
    ccallCancelTimer_eq]
  refine ⟨fun hcancel => ?_, fun hcancel hlate => ?_, fun hcancel hlate => ?_⟩
  · simp only [hcancel, hst]
    split_ifs <;> simp_all [ccallSignalFailure]
  · simp [hcancel, hst, hlate, ccallSignalFailure]
  · simp only [hcancel, hst, hlate]
    split_ifs <;> simp_all

/-- Whether a tick gives the call up is as it should be unless it is on the very end. -/
theorem ccallTimer_givesUp_iff {ccall : RecvCcall} {now : ℕ} (hnow : now < 2 ^ 31)
    (hst : ccall.status = .ok) (hall : ccall.allPktsRecvd = false)
    (hbc : ccall.broadcast = false) (hping : ccall.ping.pinging = true)
    (hstart : ccall.ping.startTime.toNat < 2 ^ 31) {t : BitVec 32} (ht : t = BitVec.ofNat 32 now) :
    ((ccallTimer ccall t).1.status = .ok ∨
      (ccallTimer ccall t).1.status = .commFailure →
      ((ccallTimer ccall t).1.status = .commFailure ↔
      ccall.comTimeoutKnob ≠ infiniteTimeout ∧ ccall.ping.startTime.toNat
        + (maxPingTime ccall.comTimeoutKnob).toNat < now)) ↔
      (cancelTimedOut ccall t = false → ccall.comTimeoutKnob ≠ infiniteTimeout →
      now ≠ ccall.ping.startTime.toNat + (maxPingTime ccall.comTimeoutKnob).toNat) := by
  obtain ⟨hcancelled, hfailed, hgoes⟩ := @ccallTimer_status _ t hst hall hbc hping
  have hlate := pingTimedOut_iff hstart hnow
  rw [← ht] at hlate
  rcases hc : cancelTimedOut ccall t with _ | _
  · rcases hl : pingTimedOut ccall t with _ | _
    · have hno := hgoes hc hl
      rw [hl] at hlate
      refine iff_of_true (fun _ => iff_of_false hno fun hend => ?_) fun _ hknob heq => ?_
      · exact Bool.false_ne_true (hlate.mpr ⟨hend.1, hend.2.le⟩)
      · exact Bool.false_ne_true (hlate.mpr ⟨hknob, by omega⟩)
    · have hyes := hfailed hc hl
      obtain ⟨hknob, hend⟩ := hlate.mp hl
      rw [hyes]
      constructor
      · intro himp _ _
        have := ((himp (.inr rfl)).mp rfl).2
        omega
      · intro hne _
        have := hne rfl hknob
        exact iff_of_true rfl ⟨hknob, by omega⟩
  · have hyes := hcancelled hc
    refine iff_of_true (fun hor => ?_) fun hcontra => by simp at hcontra
    rw [hyes] at hor
    simp at hor

/-- A tick that sends no ping leaves the ping state. -/
theorem ccallTimer_keeps {ccall : RecvCcall} {t : BitVec 32} (hst : ccall.status = .ok)
    (hall : ccall.allPktsRecvd = false) (hbc : ccall.broadcast = false)
    (hping : ccall.ping.pinging = true)
    (hsend : ¬ (pingTimedOut ccall t = false ∧ ccall.ping.nextTime.ule t = true)) :
    (ccallTimer ccall t).1.ping = ccall.ping ∧ (recvStateTimer ccall t).2 = 0 := by
  rw [ccallTimer_ping, @recvStateTimer_of_pinging _ t hst hall hbc hping]
  by_cases hl : pingTimedOut ccall t = true
  · rw [if_pos hl, ccallCancelTimer_eq, ccallSignalFailure]
    split_ifs <;> exact ⟨rfl, rfl⟩
  · rw [Bool.not_eq_true] at hl
    rw [if_neg (by simp [hl]), if_neg fun hd => hsend ⟨hl, hd⟩, ccallCancelTimer_eq]
    exact ⟨rfl, rfl⟩

/-- A tick of a pinging call that has not failed, within the range of the clock. -/
theorem pingInv_tick {s : Pinger} {now n : ℕ} (hclock : s.clock ≤ now) (hnow : now < 2 ^ 31)
    (hst : s.ccall.status = .ok) (hping : s.ccall.ping.pinging = true)
    (hbc : s.ccall.broadcast = false) (hall : s.ccall.allPktsRecvd = false)
    (hstart : s.ccall.ping.startTime.toNat < 2 ^ 31) (hn : n ≤ 28)
    (hcount : s.ccall.ping.count = BitVec.ofNat 16 n) (hdelays : s.delays = delaysTo n) :
    ∃ s', pingStep s (.tick now) = some s' ∧
      (PingsInTime s (.tick now) ↔ PingsFew s (.tick now)) ∧
      (PingsFew s (.tick now) → PingInv s') := by
  have hguard : s.clock ≤ now ∧ now < 2 ^ 31 := ⟨hclock, hnow⟩
  set t := BitVec.ofNat 32 now with ht
  have hframe := ccallTimer_frame s.ccall t
  have hcountNat : s.ccall.ping.count.toNat = n := by
    rw [hcount, BitVec.toNat_ofNat]
    exact Nat.mod_eq_of_lt (by omega)
  have htime := ccallTimer_givesUp_iff hnow hst hall hbc hping hstart ht
  have hrecv := @recvStateTimer_of_pinging _ t hst hall hbc hping
  have hnext : pingStep s (.tick now) = some
      { ccall := (ccallTimer s.ccall t).1
        clock := now
        delays :=
          if (recvStateTimer s.ccall t).2 = 0 then s.delays
          else ((ccallTimer s.ccall t).1.ping.nextTime - t).toInt :: s.delays } := by
    rw [pingStep, if_pos hguard]
    rfl
  have hfew : PingsFew s (.tick now) ↔
      (pingTimedOut s.ccall t = false → s.ccall.ping.nextTime.ule t = true → n < 28) ∧
      (cancelTimedOut s.ccall t = false → s.ccall.comTimeoutKnob ≠ infiniteTimeout →
        now ≠ s.ccall.ping.startTime.toNat + (maxPingTime s.ccall.comTimeoutKnob).toNat) := by
    rw [← hcountNat]
    exact ⟨fun h => h hclock hnow hst hping, fun h _ _ _ _ => h⟩
  by_cases hsend : pingTimedOut s.ccall t = false ∧ s.ccall.ping.nextTime.ule t = true
  · -- a ping is sent: the time has come and the call is not given up
    have hping' : (ccallTimer s.ccall t).1.ping = pingInfoNext s.ccall.ping t := by
      rw [ccallTimer_ping, hrecv, if_neg (by simp [hsend.1]), if_pos hsend.2]
    have hone : (recvStateTimer s.ccall t).2 = 1 := by
      rw [hrecv, if_neg (by simp [hsend.1]), if_pos hsend.2]
    have hdelay : ((ccallTimer s.ccall t).1.ping.nextTime - t).toInt :: s.delays
        = delaysTo (n + 1) := by
      rw [hping', nextTime_sub, hcount, hdelays, delaysTo_succ]
      rfl
    rw [hone, if_neg one_ne_zero, hdelay] at hnext
    have hok : DelaysOk (delaysTo (n + 1)) ↔ n < 28 := by
      rcases Nat.lt_or_ge n 28 with hlt | hge
      · exact iff_of_true (delaysOk_delaysTo (by omega)) hlt
      · obtain rfl : n = 28 := by omega
        exact iff_of_false not_delaysOk_delaysTo (lt_irrefl _)
    refine ⟨_, hnext, ?_, fun hf => ⟨fun hidle => ?_, fun _ => ?_⟩⟩
    · rw [hfew, ← htime, ← hok]
      constructor
      · intro h
        obtain ⟨hd, htick⟩ := h _ hnext
        exact ⟨fun _ _ => hd, htick now rfl hst hping⟩
      · rintro ⟨hd, htick⟩ s' hs'
        obtain rfl := Option.some_inj.mp (hnext.symm.trans hs')
        refine ⟨hd hsend.1 hsend.2, fun now' heq _ _ => ?_⟩
        obtain rfl : now = now' := by simpa using heq
        exact htick
    · have hstill : (pingInfoNext s.ccall.ping t).pinging = true := hping
      rw [← hping', hidle] at hstill
      exact absurd hstill Bool.false_ne_true
    · rw [hframe]
      simp only [hping']
      refine ⟨hbc, hall, hstart, n + 1, (hfew.mp hf).1 hsend.1 hsend.2, ?_, rfl⟩
      rw [pingInfoNext, hcount, BitVec.ofNat_add]
      rfl
  · -- no ping is sent
    have hnot : pingTimedOut s.ccall t = false → s.ccall.ping.nextTime.ule t = true → n < 28 :=
      fun h1 h2 => absurd ⟨h1, h2⟩ hsend
    obtain ⟨hping', hzero⟩ := ccallTimer_keeps hst hall hbc hping hsend
    rw [hzero, if_pos rfl] at hnext
    have hd : DelaysOk s.delays := by
      rw [hdelays]
      exact delaysOk_delaysTo hn
    refine ⟨_, hnext, ?_, fun _ => ⟨fun hidle => ?_, fun _ => ?_⟩⟩
    · rw [hfew, ← htime]
      constructor
      · intro h
        exact ⟨hnot, (h _ hnext).2 now rfl hst hping⟩
      · rintro ⟨-, htick⟩ s' hs'
        obtain rfl := Option.some_inj.mp (hnext.symm.trans hs')
        refine ⟨hd, fun now' heq _ _ => ?_⟩
        obtain rfl : now = now' := by simpa using heq
        exact htick
    · rw [hping', hping] at hidle
      exact absurd hidle (Bool.false_ne_true ∘ Eq.symm)
    · rw [hframe]
      simp only [hping']
      exact ⟨hbc, hall, hstart, n, hn, hcount, hdelays⟩

/-- One event: the condition is exact, and it keeps what is known of the call. -/
theorem pingInv_step (s : Pinger) (e : PingEvent) (h : PingInv s) :
    (PingsInTime s e ↔ PingsFew s e) ∧
      ∀ s', pingStep s e = some s' → PingsFew s e → PingInv s' := by
  have hok := h.delaysOk
  cases e with
  | localCancel timeoutTime =>
    constructor
    · refine iff_of_true (fun s' hs' => ?_) trivial
      cases hs'
      exact ⟨hok, fun now hc => by simp at hc⟩
    · intro s' hs' _
      cases hs'
      exact ⟨h.idle, h.active⟩
  | tick now =>
    by_cases hguard : s.clock ≤ now ∧ now < 2 ^ 31
    swap
    · -- the clock does not read this
      have hnone : pingStep s (.tick now) = none := by rw [pingStep, if_neg hguard]
      refine ⟨iff_of_true (fun s' hs' => ?_) fun h1 h2 => absurd ⟨h1, h2⟩ hguard,
        fun s' hs' => ?_⟩ <;> simp [hnone] at hs'
    by_cases hactive : s.ccall.ping.pinging = true ∧ s.ccall.status = .ok
    · obtain ⟨hping, hst⟩ := hactive
      obtain ⟨hbc, hall, hstart, n, hn, hcount, hdelays⟩ := h.active hping
      obtain ⟨t, ht, hiff, hinv⟩ := pingInv_tick hguard.1 hguard.2 hst hping hbc hall hstart hn
        hcount hdelays
      refine ⟨hiff, fun s' hs' hf => ?_⟩
      obtain rfl := Option.some_inj.mp (ht.symm.trans hs')
      exact hinv hf
    · -- a call that is not pinging, or has failed: the condition asks nothing
      have hfew : PingsFew s (.tick now) := fun _ _ hst hping => absurd ⟨hping, hst⟩ hactive
      set t := BitVec.ofNat 32 now with ht
      have hframe := ccallTimer_frame s.ccall t
      have hnext : pingStep s (.tick now) = some
          { ccall := (ccallTimer s.ccall t).1
            clock := now
            delays :=
              if (recvStateTimer s.ccall t).2 = 0 then s.delays
              else ((ccallTimer s.ccall t).1.ping.nextTime - t).toInt :: s.delays } := by
        rw [pingStep, if_pos hguard]
        rfl
      have hboth : ∀ s', pingStep s (.tick now) = some s' → PingInv s' ∧ DelaysOk s'.delays := by
        intro s' hs'
        obtain ⟨hc, hd⟩ : s'.ccall = (ccallTimer s.ccall t).1 ∧ s'.delays =
            if (recvStateTimer s.ccall t).2 = 0 then s.delays
            else ((ccallTimer s.ccall t).1.ping.nextTime - t).toInt :: s.delays := by
          obtain rfl := Option.some_inj.mp (hnext.symm.trans hs')
          exact ⟨rfl, rfl⟩
        have hkeep : (recvStateTimer s.ccall t).2 = 0 →
            (ccallTimer s.ccall t).1.ping = s.ccall.ping →
            PingInv s' ∧ DelaysOk s'.delays := fun hzero hping' => by
          rw [if_pos hzero] at hd
          refine ⟨⟨fun hidle => ?_, fun hping => ?_⟩, hd ▸ hok⟩
          · rw [hc, hping'] at hidle
            rw [hd]
            exact h.idle hidle
          · rw [hc, hping'] at hping
            rw [hc, hd, hframe]
            simp only [hping']
            exact h.active hping
        rcases hping : s.ccall.ping.pinging with _ | _
        · rcases @recvStateTimer_of_idle _ t hping with ⟨hzero, hping'⟩ |
            ⟨hbc, hall, hone, hping'⟩
          · exact hkeep hzero (by rw [ccallTimer_ping, hping'])
          · rw [← ccallTimer_ping] at hping'
            have hone' : s'.delays = delaysTo 1 := by
              rw [hd, hone, if_neg one_ne_zero, hping', nextTime_sub, h.idle hping]
              rfl
            refine ⟨⟨fun hidle => ?_, fun _ => ?_⟩, hone' ▸ by decide⟩
            · rw [hc, hping'] at hidle
              exact absurd hidle (by simp [pingInfoNext])
            · rw [hc, hframe]
              simp only [hping']
              refine ⟨hbc, hall, ?_, 1, by omega, rfl, hone'⟩
              simp only [pingInfoNext, ht, BitVec.toNat_ofNat]
              exact (Nat.mod_le _ _).trans_lt hguard.2
        · have hfailed : s.ccall.status ≠ .ok := fun hst => hactive ⟨hping, hst⟩
          have hdone := @recvStateTimer_of_done _ t (.inl hfailed)
          exact hkeep (by rw [hdone]) (by rw [ccallTimer_ping, hdone])
      refine ⟨iff_of_true (fun s' hs' => ⟨(hboth s' hs').2, fun now' _ hst hping => ?_⟩) hfew,
        fun s' hs' _ => (hboth s' hs').1⟩
      exact absurd ⟨hping, hst⟩ hactive

/-- **Ping back-off.**  For a call that is not pinging when it starts to wait: in
every run of clock ticks and local cancels, the delays keep within their range,
never decrease, and the call is given up at the first tick more than the ping
time after pinging began and not before, if and only if no tick sends a 29th ping
and none falls on the very end of the ping time. -/
theorem pingsInTime_iff {ccall : RecvCcall} {clock : ℕ} (hidle : ccall.ping.pinging = false)
    (es : List PingEvent) :
    Along pingStep PingsInTime { ccall := ccall, clock := clock } es ↔
      Along pingStep PingsFew { ccall := ccall, clock := clock } es := by
  have hinit : PingInv { ccall := ccall, clock := clock } :=
    ⟨fun _ => rfl, fun hping => by rw [hidle] at hping; exact absurd hping Bool.false_ne_true⟩
  exact along_iff_along pingInv_step hinit

/-- A call that begins to ping after two seconds and is given up, with the shortest
com timeout, seven ticks later. -/
theorem pingsInTime_iff_short :
    Along pingStep PingsInTime { ccall := { comTimeoutKnob := 0, ping := { nextTime := 10 } } }
      [.tick 10, .tick 14, .tick 17] :=
  (pingsInTime_iff rfl _).mpr (by decide)

/-- Thirty ticks, eight seconds apart. -/
def pingRun : List PingEvent := (List.range 30).map fun k => .tick (40 * k + 20)

/-- With an infinite com timeout the 29th ping is scheduled by a negative delay. -/
theorem not_pingsInTime :
    ¬ ∀ (ccall : RecvCcall) (es : List PingEvent), ccall.ping.pinging = false →
      Along pingStep PingsInTime { ccall := ccall } es := by
  intro h
  have hinit : PingInv { ccall := { comTimeoutKnob := infiniteTimeout, ping := { nextTime := 10 } } } :=
    ⟨fun _ => rfl, fun hping => by simp at hping⟩
  have hfew := (along_iff_along pingInv_step hinit).mp (h _ pingRun rfl)
  exact absurd hfew (by decide)

end Dg
