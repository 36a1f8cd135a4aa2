/-
The listener's side of the datagram server (dgslsn.c): the filter for request
packets, and the handlers for pings, acks and quits.
-/
import FreeDce.Dg.Sct

namespace Dg

/-- `rpc__dg_svr_chk_and_set_sboot`. -/
def svrChkSboot (cfg : ServerConfig) (hdr : PktHdr) : Bool :=
  hdr.serverBoot = 0 ∨ hdr.serverBoot = cfg.boot

/-! ### The request filter -/

/-- `do_req_enum_t`. -/
inductive DoReq
  | old | curCall | orphanCurCall | newCall | ping | nonIdemRerun
deriving DecidableEq, Repr

/-- `do_request_common`. -/
def doRequestCommon (curCallSeq : BitVec 32) (curCallState : CallState) (hdr : PktHdr) :
    DoReq :=
  if hdr.seq = curCallSeq then
    match curCallState with
    | .idle =>
      if hdr.seqIdem then .newCall
      else if hdr.fragnum ≠ 0 then .old
      else .nonIdemRerun
    | .final => .ping
    | .init | .recv => .curCall
    | .xmit | .orphan => .old
  else if Serial.Lt curCallSeq hdr.seq then
    match curCallState with
    | .idle | .final => .newCall
    | .init | .recv | .xmit => .orphanCurCall
    | .orphan => if hdr.seqMaybe then .newCall else .old
  else if hdr.seqMaybe then .newCall
  else .old

/-- The handle the request is filtered with, and what the filter says. -/
def requestDisposition (s : Server) (scte : SctElt) (hdr : PktHdr) : Option ℕ × DoReq :=
  let scall := sctInqScall s scte hdr.seq
  let state := ((scall.bind fun k => s.scalls[k]?).map Scall.state).getD .idle
  (scall, doRequestCommon scte.highSeq state hdr)

/-! ### Accepting a packet -/

/-- What handing the call to an executor came to. -/
inductive InvokeResult
  | ok | queued | failed
deriving DecidableEq, Repr

/-- The stashed first half of a two-packet forward that this packet completes. -/
def completesForward (sc : Scall) (hdr : PktHdr) : Bool :=
  sc.fwd2Rqe.any fun first =>
    hdr.flagIsSet pfForwarded = false ∧ hdr.actuid = first.actuid ∧ hdr.seq = first.seq ∧
      hdr.fragnum = first.fragnum

/-- The packet goes onto the call's receive queue. -/
def insertPkt (s : Server) (k : ℕ) (pkt : Pkt) (env : CallEnv) : Server :=
  s.updScall k fun sc => { sc with rq := (callRecvqInsert env sc.rq pkt).rq }

/-- The call moves to the receive state and gets an executor. -/
def setupCall (s : Server) (k : ℕ) (queued : Bool) : Server :=
  let s := s.updScall k fun sc => { sc with
    state := .recv
    callIsSetup := true
    hasCallExecutorRef := true
    callIsQueued := queued }
  { s with execs := s.execs ++ [{ scall := k, pc := if queued then .queued else .start }] }

/-- There is no executor: the handle goes back to the idle state. -/
def backoutCall (s : Server) (k : ℕ) (scte : Option ℕ) (hdr : PktHdr) : Server :=
  let s := s.updScall k fun sc => { sc with
    state := .idle
    rq := recvqFree sc.rq
    callIsSetup := true
    hasCallExecutorRef := false }
  sctBackoutNewCall s scte hdr.seq

/-- The second half of `rpc__dg_do_request`, once there is a call handle. -/
def acceptPkt (s : Server) (k : ℕ) (pkt : Pkt) (env : CallEnv) (invoke : InvokeResult) :
    Option Server := do
  let s := s.updScall k fun sc => { sc with
    clientNeedsSboot := pkt.hdr.serverBoot = 0
    fwd2Rqe := if completesForward sc pkt.hdr then none else sc.fwd2Rqe }
  if pkt.hdr.flag2IsSet pf2Forwarded2 then
    some (s.updScall k fun sc => { sc with fwd2Rqe := some pkt.hdr })
  else
    let sc ← s.scalls[k]?
    if sc.callIsSetup then
      some (insertPkt s k pkt env)
    else
      match invoke with
      | .ok => some (insertPkt (setupCall s k false) k pkt env)
      | .queued => some (insertPkt (setupCall s k true) k pkt env)
      | .failed => some (backoutCall s k sc.scte pkt.hdr)

/-- `rpc__dg_do_request`, for a packet on a server socket. -/
def doRequest (cfg : ServerConfig) (s : Server) (pkt : Pkt) (env : CallEnv)
    (invoke : InvokeResult) : Option Server :=
  if svrChkSboot cfg pkt.hdr = false then
    some s
  else do
    let (sct, i) := sctGet cfg s.sct pkt.hdr.ahint.toNat pkt.hdr.seq
    let s := { s with sct := sct }
    let scte ← s.sct[i]?
    match requestDisposition s scte pkt.hdr with
    | (_, .old) | (_, .ping) | (_, .nonIdemRerun) => some s
    | (scall, .curCall) => do
      let k ← scall
      acceptPkt s k pkt env invoke
    | (scall, .orphanCurCall) => do
      let k ← scall
      let s ← scallOrphanCall s k
      -- a maybe call falls through and reuses the handle just orphaned
      if pkt.hdr.seqMaybe then do
        let (s, k) ← sctNewCall s i (some k) pkt.hdr
        acceptPkt s k pkt env invoke
      else some s
    | (scall, .newCall) => do
      let (s, k) ← sctNewCall s i scall pkt.hdr
      acceptPkt s k pkt env invoke

/-! ### Pings, acks and quits -/

/-- The call handle that the packet of a type other than request is for. -/
def lookupScall (cfg : ServerConfig) (s : Server) (hdr : PktHdr) : Option ℕ := do
  let i ← sctLookup cfg s.sct hdr.ahint.toNat
  let scte ← s.sct[i]?
  sctInqScall s scte hdr.seq

/-- `rpc__dg_do_ack`. -/
def doAck (cfg : ServerConfig) (s : Server) (hdr : PktHdr) : Server :=
  if svrChkSboot cfg hdr = false then s
  else
    match lookupScall cfg s hdr with
    | some k =>
      s.updScall k fun sc =>
        if hdr.seq = sc.callSeq ∧ sc.state = .final then { sc with state := .idle } else sc
    | none => s

/-- `rpc__dg_do_quit`, for an orphan quit.  A cancel quit does not change the
state of the call. -/
def doQuit (cfg : ServerConfig) (s : Server) (hdr : PktHdr) : Option Server :=
  if svrChkSboot cfg hdr = false then some s
  else
    match lookupScall cfg s hdr with
    | none => some s
    | some k => do
      let sc ← s.scalls[k]?
      -- the test for a newer call compares the numbers as they are
      if Serial.Lt hdr.seq sc.callSeq ∨ sc.callSeq < hdr.seq then some s
      else
        let s := s.updScall k fun sc => { sc with rq := { sc.rq with allPktsRecvd := true } }
        match sc.state with
        | .init | .xmit | .recv | .final => scallOrphanCall s k
        | .idle | .orphan => some s

/-- What a ping is answered with. -/
inductive PingReply
  | nothing | noCall | working | fack | retransmit
deriving DecidableEq, Repr

/-- `ping_common`. -/
def pingCommon (sc : Scall) : PingReply :=
  match sc.state with
  | .recv => if sc.rq.allPktsRecvd then .working else .fack
  | .xmit | .final => .retransmit
  | .orphan => .working
  | .init | .idle => .noCall

/-- `rpc__dg_do_ping`; it only sends packets. -/
def doPing (cfg : ServerConfig) (s : Server) (hdr : PktHdr) : PingReply :=
  if svrChkSboot cfg hdr = false then .nothing
  else
    match (lookupScall cfg s hdr).bind fun k => s.scalls[k]? with
    | none => .noCall
    | some sc =>
      if Serial.Lt sc.callSeq hdr.seq then .noCall
      else if hdr.seq = sc.callSeq then pingCommon sc
      else .nothing

end Dg
