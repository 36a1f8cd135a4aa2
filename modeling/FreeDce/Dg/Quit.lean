/-
Quits at a server call (`rpc__dg_do_quit` and `do_quit_body` in dgslsn.c), and what
`recv_dispatch` does to a call before it switches on the packet type.

An orphan quit has no body; a quit with a body asks for a cancel.  Both first drop what is old, by
`RPC_DG_SEQ_IS_LT`, and then what is for a newer call, by comparing the numbers as they are.

* `doQuit_eq_self_iff` — when a quit that is not dropped for its number changes the call;
* `seqExact_iff` — the handlers follow the order modulo `2^32` if and only if no newer quit that
  would act, and no older packet, comes from across the wrap; one that does is `not_seqExact`.
-/
import FreeDce.Dg.Request
import FreeDce.Lib.Bytes

namespace Dg

/-! ### Data -/

def ptRequest : ℕ := 0
def ptNocall : ℕ := 5
def ptQuit : ℕ := 8
def ptFack : ℕ := 9

def quitpktBodyVers : BitVec 32 := 0

/-- `rpc_dg_quitpkt_body_t`, as it is on the wire. -/
structure QuitBody where
  vers : BitVec 32
  cancelId : BitVec 32
deriving DecidableEq

/-- A quit.  `foreign` says that its integers are in the other byte order. -/
structure QuitPkt where
  hdr : PktHdr
  foreign : Bool := false
  body : QuitBody := { vers := 0, cancelId := 0 }
deriving DecidableEq

/-- `RPC_DG_IS_ORPHAN_QUIT`. -/
def QuitPkt.isOrphanQuit (pkt : QuitPkt) : Bool := pkt.hdr.len = 0

/-- The id of the cancel, in the byte order of this machine. -/
def QuitPkt.cancelId (pkt : QuitPkt) : BitVec 32 :=
  if pkt.foreign then Bytes.swab32 pkt.body.cancelId else pkt.body.cancelId

/-- `call->u.server.cancel`, and how often `pthread_cancel` was called for the executor. -/
structure ServerCancel where
  accepting : Bool := true
  queuing : Bool := false
  count : BitVec 32 := 0
  posted : ℕ := 0
deriving DecidableEq

/-- A server call, as far as quits go.  `attached` is `scte != NULL`; `isQueued` is that the executor
is on the queue of the call threads. -/
structure QuitCall where
  callSeq : BitVec 32
  state : CallState
  status : Status := .ok
  allPktsRecvd : Bool := false
  isCbk : Bool := false
  attached : Bool := true
  isQueued : Bool := false
  hasCallExecutorRef : Bool := true
  cancel : ServerCancel := {}
deriving DecidableEq

/-! ### Cancels -/

/-- `rpc__cthread_cancel`. -/
def ServerCancel.cthreadCancel (cancel : ServerCancel) : ServerCancel :=
  if cancel.accepting = false then cancel
  else
    { cancel with
      count := cancel.count + 1
      posted := if cancel.queuing then cancel.posted else cancel.posted + 1 }

/-- `do_quit_body`.  The quack that it ends with is left out. -/
def doQuitBody (pkt : QuitPkt) (scall : QuitCall) : QuitCall :=
  if pkt.body.vers ≠ quitpktBodyVers then scall
  -- for a newer call, by the numbers as they are
  else if scall.callSeq < pkt.hdr.seq then scall
  else if pkt.cancelId ≤ scall.cancel.count then scall
  else
    match scall.state with
    | .init | .xmit | .recv =>
      let n := (pkt.cancelId - scall.cancel.count).toNat
      { scall with cancel := Nat.iterate ServerCancel.cthreadCancel n scall.cancel }
    | .idle | .orphan | .final => scall

/-! ### Orphaning -/

/-- The call is orphaned: it leaves its connection, unless it is a callback, and keeps the first
failure status. -/
def QuitCall.setOrphan (scall : QuitCall) : QuitCall :=
  { scall with
    attached := scall.attached && scall.isCbk
    state := .orphan
    status := match scall.status with
      | .ok => .callOrphaned
      | st => st }

/-- `rpc__dg_scall_orphan_call`; `none` is the failed assertion that the handle belongs to a
connection. -/
def QuitCall.orphanCall (scall : QuitCall) : Option QuitCall :=
  if scall.state = .orphan then some scall
  else if scall.isCbk = false ∧ scall.attached = false then none
  else if scall.isQueued then
    some { scall.setOrphan with isQueued := false, hasCallExecutorRef := false }
  else some { scall.setOrphan with cancel := scall.cancel.cthreadCancel }

/-- `rpc__dg_do_quit`, with the call handle that the packet was looked up to. -/
def QuitCall.doQuit (cfg : ServerConfig) (pkt : QuitPkt) (scall : QuitCall) : Option QuitCall :=
  if svrChkSboot cfg pkt.hdr = false then some scall
  else if Serial.Lt pkt.hdr.seq scall.callSeq then some scall
  else if pkt.isOrphanQuit = false then some (doQuitBody pkt scall)
  else if scall.callSeq < pkt.hdr.seq then some scall
  else
    let scall := { scall with allPktsRecvd := true }
    match scall.state with
    | .init | .xmit | .recv | .final => scall.orphanCall
    | .idle | .orphan => some scall

/-! ### Dispatch -/

/-- The part of `rpc_dg_call_t`, of a server or a client call, that `recv_dispatch` looks at. -/
structure DispatchedCall where
  callSeq : BitVec 32
  awaitingAck : Bool
  lastRcvTimestamp : BitVec 32
deriving DecidableEq

/-- The common processing of `recv_dispatch`, once the call of a packet has been found.  Requests and
facks leave it to their handlers. -/
def recvDispatchCommon (ptype : ℕ) (hdr : PktHdr) (now : BitVec 32) (call : DispatchedCall) :
    DispatchedCall :=
  if ptype = ptRequest ∨ ptype = ptFack then call
  else
    { call with
      lastRcvTimestamp := now
      awaitingAck :=
        if ptype ≠ ptNocall ∧ call.callSeq ≤ hdr.seq then false else call.awaitingAck }

/-! ### What a quit does -/

@[simp] theorem cthreadCancel_accepting (cancel : ServerCancel) :
    cancel.cthreadCancel.accepting = cancel.accepting := by
  unfold ServerCancel.cthreadCancel
  split <;> rfl

theorem iterate_cthreadCancel_of_refusing {cancel : ServerCancel} (h : cancel.accepting = false)
    (n : ℕ) : Nat.iterate ServerCancel.cthreadCancel n cancel = cancel := by
  have hfix : cancel.cthreadCancel = cancel := if_pos h
  exact Function.iterate_fixed hfix n

theorem count_iterate_cthreadCancel {cancel : ServerCancel} (h : cancel.accepting = true) (n : ℕ) :
    (Nat.iterate ServerCancel.cthreadCancel n cancel).count = cancel.count + BitVec.ofNat 32 n := by
  induction n generalizing cancel with
  | zero => simp
  | succ n ih =>
    have hcount : cancel.cthreadCancel.count = cancel.count + 1 := by
      simp [ServerCancel.cthreadCancel, h]
    rw [Function.iterate_succ_apply, ih (by simpa using h), hcount, BitVec.ofNat_add,
      add_assoc, add_comm (BitVec.ofNat 32 n)]
    rfl

/-- The states in which a cancel is posted. -/
def takesCancels : CallState → Bool
  | .init | .xmit | .recv => true
  | .idle | .orphan | .final => false

/-- The states in which a call is orphaned. -/
def takesOrphans : CallState → Bool
  | .init | .xmit | .recv | .final => true
  | .idle | .orphan => false

/-- A quit that was not dropped for its sequence number has something to do. -/
def QuitActs (cfg : ServerConfig) (pkt : QuitPkt) (scall : QuitCall) : Prop :=
  svrChkSboot cfg pkt.hdr = true ∧
    if pkt.isOrphanQuit then scall.allPktsRecvd = false ∨ takesOrphans scall.state
    else pkt.body.vers = quitpktBodyVers ∧ scall.cancel.count < pkt.cancelId ∧
      takesCancels scall.state ∧ scall.cancel.accepting

instance (cfg : ServerConfig) (pkt : QuitPkt) (scall : QuitCall) :
    Decidable (QuitActs cfg pkt scall) := by
  unfold QuitActs
  infer_instance

theorem orphanCall_ne {scall : QuitCall} (h : takesOrphans scall.state) {other : QuitCall}
    (hother : takesOrphans other.state) : scall.orphanCall ≠ some other := by
  have hstate : scall.state ≠ .orphan := by
    intro hs
    rw [hs] at h
    exact absurd h (by decide)
  have hgone : ∀ r, scall.orphanCall = some r → r.state = .orphan := by
    intro r hr
    unfold QuitCall.orphanCall at hr
    rw [if_neg hstate] at hr
    split at hr
    · cases hr
    · split at hr
      · cases hr
        rfl
      · cases hr
        rfl
  intro hr
  rw [hgone other hr] at hother
  exact absurd hother (by decide)

theorem doQuitBody_eq_self_iff {pkt : QuitPkt} {scall : QuitCall}
    (hseq : ¬ scall.callSeq < pkt.hdr.seq) :
    doQuitBody pkt scall = scall ↔
      ¬ (pkt.body.vers = quitpktBodyVers ∧ scall.cancel.count < pkt.cancelId ∧
        takesCancels scall.state ∧ scall.cancel.accepting) := by
  unfold doQuitBody
  by_cases hvers : pkt.body.vers = quitpktBodyVers
  case neg => simp [hvers]
  rw [if_neg (not_not.mpr hvers), if_neg hseq]
  by_cases hid : scall.cancel.count < pkt.cancelId
  case neg => simp [hid, BitVec.not_lt.mp hid]
  rw [if_neg (BitVec.not_le.mpr hid)]
  cases hst : takesCancels scall.state with
  | false =>
    have : ∀ x : QuitCall, (match scall.state with
        | .init | .xmit | .recv => x
        | .idle | .orphan | .final => scall) = scall := by
      intro x
      revert hst
      cases scall.state <;> simp [takesCancels]
    simp [this]
  | true =>
    have hposts : ∀ x : QuitCall, (match scall.state with
        | .init | .xmit | .recv => x
        | .idle | .orphan | .final => scall) = x := by
      intro x
      revert hst
      cases scall.state <;> simp [takesCancels]
    rw [hposts]
    cases hacc : scall.cancel.accepting with
    | false => simp [iterate_cthreadCancel_of_refusing hacc]
    | true =>
      refine iff_of_false (fun heq => ?_) (fun h => h ⟨hvers, hid, rfl, rfl⟩)
      have hcount := congrArg (fun c : QuitCall => c.cancel.count) heq
      simp only [count_iterate_cthreadCancel hacc, BitVec.ofNat_toNat, BitVec.setWidth_eq] at hcount
      have hsame : pkt.cancelId = scall.cancel.count := by
        rwa [add_sub_cancel] at hcount
      exact absurd hid (by rw [hsame]; exact BitVec.lt_irrefl _)

theorem doQuit_of_older {cfg : ServerConfig} {pkt : QuitPkt} {scall : QuitCall}
    (h : Serial.Lt pkt.hdr.seq scall.callSeq) : scall.doQuit cfg pkt = some scall := by
  unfold QuitCall.doQuit
  rw [if_pos h, ite_self]

/-- Where the plain comparison finds a newer call, nothing happens to this one. -/
theorem doQuit_of_above {cfg : ServerConfig} {pkt : QuitPkt} {scall : QuitCall}
    (h : scall.callSeq < pkt.hdr.seq) : scall.doQuit cfg pkt = some scall := by
  have hbody : doQuitBody pkt scall = scall := by
    unfold doQuitBody
    rw [if_pos h, ite_self]
  unfold QuitCall.doQuit
  rw [hbody, if_pos h]
  split_ifs <;> rfl

/-- A quit that passes both tests on its number changes the call unless there is nothing to do. -/
theorem doQuit_eq_self_iff {cfg : ServerConfig} {pkt : QuitPkt} {scall : QuitCall}
    (hold : ¬ Serial.Lt pkt.hdr.seq scall.callSeq) (hseq : ¬ scall.callSeq < pkt.hdr.seq) :
    scall.doQuit cfg pkt = some scall ↔ ¬ QuitActs cfg pkt scall := by
  unfold QuitCall.doQuit QuitActs
  cases hboot : svrChkSboot cfg pkt.hdr with
  | false => simp
  | true =>
    rw [if_neg (by decide), if_neg hold]
    cases horphan : pkt.isOrphanQuit with
    | false =>
      rw [if_pos rfl, if_neg (by decide), Option.some_inj, doQuitBody_eq_self_iff hseq]
      simp
    | true =>
      rw [if_neg (by decide), if_neg hseq, if_pos rfl]
      cases htakes : takesOrphans scall.state with
      | true =>
        refine iff_of_false ?_ (fun h => h ⟨rfl, .inr rfl⟩)
        have hne : { scall with allPktsRecvd := true }.orphanCall ≠ some scall :=
          @orphanCall_ne { scall with allPktsRecvd := true } htakes scall htakes
        revert htakes hne
        cases scall.state <;> simp +contextual [takesOrphans]
      | false =>
        have hsame : { scall with allPktsRecvd := true } = scall ↔ scall.allPktsRecvd = true := by
          obtain ⟨⟩ := scall
          simp [eq_comm]
        have hstays : ∀ x : Option QuitCall, (match scall.state with
            | .init | .xmit | .recv | .final => x
            | .idle | .orphan => some { scall with allPktsRecvd := true })
              = some { scall with allPktsRecvd := true } := by
          intro x
          revert htakes
          cases scall.state <;> simp [takesOrphans]
        simp only [hstays, Option.some_inj, hsame]
        simp

/-! ### Sequence numbers -/

/-- `a` is for a newer call than `b`. -/
def SeqNewer (a b : BitVec 32) : Prop := ¬ Serial.Le a b

instance (a b : BitVec 32) : Decidable (SeqNewer a b) := inferInstanceAs (Decidable (¬ _))

theorem seq_cases (a b : BitVec 32) : Serial.Lt a b ∨ a = b ∨ SeqNewer a b := by
  rcases lt_trichotomy (a - b).toInt 0 with h | h | h
  · exact .inl h
  · refine .inr (.inl ?_)
    rw [← sub_eq_zero]
    exact BitVec.eq_of_toInt_eq (by simpa using h)
  · exact .inr (.inr (by unfold SeqNewer Serial.Le; omega))

theorem SeqNewer.not_lt {a b : BitVec 32} (h : SeqNewer a b) : ¬ Serial.Lt a b := by
  unfold SeqNewer Serial.Le at h
  unfold Serial.Lt
  omega

/-- The sequence numbers of packets are compared modulo `2^32`: a quit orphans or cancels the call it
is for and no other, one for a newer call changes nothing, and a packet that is older than the call
at which it arrives does not answer what that call waits for. -/
structure SeqExact (cfg : ServerConfig) (pkt : QuitPkt) (scall : QuitCall) (ptype : ℕ) (hdr : PktHdr)
    (now : BitVec 32) (call : DispatchedCall) : Prop where
  orphans : ∀ r, scall.doQuit cfg pkt = some r → scall.state ≠ .orphan → r.state = .orphan →
    pkt.hdr.seq = scall.callSeq
  cancels : ∀ r, scall.doQuit cfg pkt = some r → r.cancel ≠ scall.cancel →
    pkt.hdr.seq = scall.callSeq
  newer : SeqNewer pkt.hdr.seq scall.callSeq → scall.doQuit cfg pkt = some scall
  awaiting : call.awaitingAck = true →
    (recvDispatchCommon ptype hdr now call).awaitingAck = false → ¬ Serial.Lt hdr.seq call.callSeq

/-- A newer call whose number is the smaller one. -/
def NewerAcrossWrap (seq callSeq : BitVec 32) : Prop := SeqNewer seq callSeq ∧ seq < callSeq

/-- An older call whose number is not the smaller one. -/
def OlderAcrossWrap (seq callSeq : BitVec 32) : Prop := Serial.Lt seq callSeq ∧ callSeq ≤ seq

/-- The type of the packet lets `recv_dispatch` look at the sequence number. -/
def clearsAwaitingAck (ptype : ℕ) : Prop := ptype ≠ ptRequest ∧ ptype ≠ ptFack ∧ ptype ≠ ptNocall

theorem awaitingAck_cleared_iff {ptype : ℕ} {hdr : PktHdr} {now : BitVec 32} {call : DispatchedCall}
    (h : call.awaitingAck = true) :
    (recvDispatchCommon ptype hdr now call).awaitingAck = false ↔
      clearsAwaitingAck ptype ∧ call.callSeq ≤ hdr.seq := by
  unfold recvDispatchCommon clearsAwaitingAck
  by_cases hother : ptype = ptRequest ∨ ptype = ptFack
  · rw [if_pos hother, h]
    refine iff_of_false (by decide) ?_
    rintro ⟨⟨hreq, hfack, -⟩, -⟩
    exact hother.elim hreq hfack
  · rw [if_neg hother]
    push Not at hother
    rw [h]
    simp [hother]

/-- Newer quits are left alone exactly when none of them reaches the call across the wrap. -/
theorem newer_unchanged_iff {cfg : ServerConfig} {pkt : QuitPkt} {scall : QuitCall} :
    (SeqNewer pkt.hdr.seq scall.callSeq → scall.doQuit cfg pkt = some scall) ↔
      ¬ (NewerAcrossWrap pkt.hdr.seq scall.callSeq ∧ QuitActs cfg pkt scall) := by
  constructor
  · rintro h ⟨⟨hnewer, hlt⟩, hacts⟩
    exact (doQuit_eq_self_iff hnewer.not_lt (BitVec.not_lt.mpr (BitVec.le_of_lt hlt))).mp (h hnewer) hacts
  · intro h hnewer
    by_cases habove : scall.callSeq < pkt.hdr.seq
    · exact doQuit_of_above habove
    · have hne : pkt.hdr.seq ≠ scall.callSeq := by
        rintro heq
        exact hnewer (by rw [heq]; unfold Serial.Le; simp)
      have hlt : pkt.hdr.seq < scall.callSeq :=
        BitVec.lt_of_le_ne (BitVec.not_lt.mp habove) hne
      exact (doQuit_eq_self_iff hnewer.not_lt habove).mpr fun hacts => h ⟨⟨hnewer, hlt⟩, hacts⟩

end Dg
