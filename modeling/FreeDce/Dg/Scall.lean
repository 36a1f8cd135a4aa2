/-
Server call handles (dgscall.c) and server connection entries (dgsct.c) of one
activity.

Handles and entries are referred to by their position in a list, which stands
for the C pointer.  `Executor` is a call executor thread inside
`rpc__dg_execute_call`; its `pc` says where it is between two acquisitions of
the call lock.  `accepted` and `dispatched` are history variables: the calls
that were taken as new calls (and not backed out), and the headers with which
the server stub was entered.
-/
import FreeDce.Dg.Recvq

namespace Dg

def pfBroadcast : BitVec 8 := 0x40

def PktHdr.seqIdem (hdr : PktHdr) : Bool := hdr.flagIsSet pfIdempotent
def PktHdr.seqMaybe (hdr : PktHdr) : Bool := hdr.flagIsSet pfMaybe

/-- `rpc_dg_sct_elt_t`.  `ahint` is the hash bucket the entry is in. -/
structure SctElt where
  ahint : ℕ
  highSeq : BitVec 32
  highSeqIsWayValidated : Bool := false
  scall : Option ℕ := none
  maybeChain : List ℕ := []

/-- `rpc_dg_scall_t`. -/
structure Scall where
  scte : Option ℕ
  callSeq : BitVec 32
  state : CallState := .init
  status : Status := .ok
  rq : Recvq := recvqInit
  fwd2Rqe : Option PktHdr := none
  callIsSetup : Bool := false
  hasCallExecutorRef : Bool := false
  callIsQueued : Bool := false
  clientNeedsSboot : Bool := false

/-- Where a call executor is. -/
inductive ExecPc
  /-- Waiting for a thread. -/
  | queued
  /-- About to enter `rpc__dg_execute_call`. -/
  | start
  /-- Unlocked to make a packet reservation. -/
  | resv
  /-- In the first receive. -/
  | receive
  /-- The call was unlocked before the who-are-you validation. -/
  | wayLock (hdr : PktHdr) (force : Bool)
  /-- The callback to the client is in progress, for the given connection. -/
  | wayCall (hdr : PktHdr) (force : Bool) (scte : ℕ)
  /-- The validation returned; the call is still unlocked. -/
  | wayDone (hdr : PktHdr) (force : Bool) (ok : Bool)
  /-- In the server stub. -/
  | stub (hdr : PktHdr)
  | done

structure Executor where
  scall : ℕ
  pc : ExecPc

/-- The server's state for one activity. -/
structure Server where
  sct : List SctElt := []
  scalls : List Scall := []
  execs : List Executor := []
  accepted : List (BitVec 32) := []
  dispatched : List PktHdr := []

/-! ### Updates -/

def Server.updScte (s : Server) (i : ℕ) (f : SctElt → SctElt) : Server :=
  { s with sct := s.sct.modify i f }

def Server.updScall (s : Server) (k : ℕ) (f : Scall → Scall) : Server :=
  { s with scalls := s.scalls.modify k f }

def Server.setPc (s : Server) (e : ℕ) (pc : ExecPc) : Server :=
  { s with execs := s.execs.modify e fun ex => { ex with pc := pc } }

/-! ### Call handles -/

/-- `release_scall_from_scte`. -/
def releaseScallFromScte (k : ℕ) (scte : SctElt) : SctElt :=
  if scte.scall = some k then { scte with scall := none }
  else { scte with maybeChain := scte.maybeChain.erase k }

/-- `rpc__dg_call_signal_failure` keeps the first failure status. -/
def signalFailure (st : Status) (sc : Scall) : Scall :=
  { sc with status := if sc.status = .ok then st else sc.status }

def ExecPc.isQueued : ExecPc → Bool
  | .queued => true
  | _ => false

/-- An executor of the call is on the queue. -/
def isQueued (s : Server) (k : ℕ) : Bool :=
  s.execs.any fun ex => ex.scall = k && ex.pc.isQueued

/-- `rpc__cthread_dequeue`: a queued executor of the call is taken off the queue. -/
def cthreadDequeue (s : Server) (k : ℕ) : Server :=
  { s with execs := s.execs.map fun ex =>
      if ex.scall = k ∧ ex.pc.isQueued then { ex with pc := .done } else ex }

/-- `rpc__dg_scall_orphan_call`; `none` is the failed assertion that the handle
belongs to a connection. -/
def scallOrphanCall (s : Server) (k : ℕ) : Option Server := do
  let sc ← s.scalls[k]?
  if sc.state = .orphan then
    some s
  else
    let i ← sc.scte
    let s := s.updScte i (releaseScallFromScte k)
    let s := s.updScall k fun sc => { signalFailure .callOrphaned sc with
      scte := none
      state := .orphan
      hasCallExecutorRef := sc.hasCallExecutorRef && !isQueued s k }
    some (cthreadDequeue s k)

/-- The fields that `rpc__dg_scall_reinit` sets. -/
def scallInit (sc : Scall) (hdr : PktHdr) : Scall :=
  { sc with
    callSeq := hdr.seq
    state := .init
    status := .ok
    rq := recvqInit
    callIsSetup := false
    hasCallExecutorRef := false
    callIsQueued := false
    clientNeedsSboot := false }

/-- A handle that is reused for a maybe call moves to the maybe chain. -/
def moveToMaybeChain (k : ℕ) (scte : SctElt) : SctElt :=
  if scte.scall = some k then
    { scte with scall := none, maybeChain := k :: scte.maybeChain }
  else scte

/-- `rpc__dg_scall_reinit`. -/
def scallReinit (s : Server) (k : ℕ) (hdr : PktHdr) : Server :=
  let s := s.updScall k fun sc => scallInit sc hdr
  match (s.scalls[k]?).bind Scall.scte with
  | some i => if hdr.seqMaybe then s.updScte i (moveToMaybeChain k) else s
  | none => s

/-- `rpc__dg_scall_alloc`; the new handle is the last one. -/
def scallAlloc (s : Server) (i : ℕ) (hdr : PktHdr) : Server :=
  let k := s.scalls.length
  let sc : Scall := { scte := some i, callSeq := hdr.seq }
  Server.updScte { s with scalls := s.scalls ++ [sc] } i fun scte =>
    if hdr.seqMaybe then { scte with maybeChain := k :: scte.maybeChain }
    else { scte with scall := some k }

/-- `scall_uncache`, as far as the connection is concerned. -/
def scallUncache (s : Server) (k : ℕ) (sc : Scall) : Server :=
  match sc.scte with
  | some i =>
    (s.updScte i (releaseScallFromScte k)).updScall k fun sc => { sc with scte := none }
  | none => s

/-- `rpc__dg_scall_timer`; `aged` is whether the time-out of the state has passed. -/
def scallTimer (s : Server) (k : ℕ) (aged : Bool) : Option Server := do
  let sc ← s.scalls[k]?
  match sc.state with
  | .init | .xmit => some s
  | .idle => some (if aged then scallUncache s k sc else s)
  | .recv => if sc.rq.allPktsRecvd = false ∧ aged then scallOrphanCall s k else some s
  | .final =>
    if sc.status ≠ .ok then some (s.updScall k fun sc => { sc with state := .idle })
    else some s
  | .orphan => some (if sc.hasCallExecutorRef then s else scallUncache s k sc)

end Dg
