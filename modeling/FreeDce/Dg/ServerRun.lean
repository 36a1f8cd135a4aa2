/-
Runs of the datagram server for one activity.

The client performs one call after another, with sequence numbers that increase
in the modular order; its packets are lost, duplicated and reordered at will.
`serverStep` is one event: the client moves on to a new call, the listener
handles a packet, a timer fires, or an executor takes a step.  A who-are-you
callback is answered with the call that the client is performing.
-/
import FreeDce.Dg.Execute
import FreeDce.Lib.Runs

namespace Dg

/-- A call of the client.  Its flags are the same in all of its packets. -/
structure ClientCall where
  seq : BitVec 32
  idem : Bool := false
  maybe : Bool := false
deriving DecidableEq, Repr

/-- The client's calls, the current one first, and the server. -/
structure System where
  calls : List ClientCall
  server : Server := {}

/-- The client performs its first call, of which the server knows nothing. -/
def System.start (c : ClientCall) : System := { calls := [c] }

/-- A step of an executor, with what the rest of the runtime decides. -/
inductive ExecEvent
  | dequeued
  | start (needResv : Bool)
  | resv
  | receive (auth : AuthCheck) (keyInfo : Bool) (reject : Option Ending)
  | wayLock (bindingOk : Bool)
  | wayAnswer (ok : Bool)
  | wayDone (auth : AuthCheck) (reject : Option Ending) (ending : Ending)
  | stubReceive (auth : AuthCheck)
  | stubTransmit
  | stubReturn (ending : Ending)

inductive ServerEvent
  | clientCall (c : ClientCall)
  | request (pkt : Pkt) (env : CallEnv) (invoke : InvokeResult)
  | ping (hdr : PktHdr)
  | ack (hdr : PktHdr)
  | quit (hdr : PktHdr)
  | timer (k : ℕ) (aged : Bool)
  | signalFailure (k : ℕ) (st : Status)
  | exec (e : ℕ) (ev : ExecEvent)

/-- The step that an executor at the given place can take. -/
def execStep (current : BitVec 32) (s : Server) (e k : ℕ) : ExecPc → ExecEvent → Option Server
  | .queued, .dequeued => some (s.setPc e .start)
  | .start, .start needResv => execStart s e k needResv
  | .resv, .resv => execResv s e k
  | .receive, .receive auth keyInfo reject => execReceive s e k auth keyInfo reject
  | .wayLock hdr force, .wayLock bindingOk => execWayLock s e k hdr force bindingOk
  | .wayCall hdr force i, .wayAnswer ok =>
    execWayAnswer s e hdr force i (if ok then some current else none)
  | .wayDone hdr force ok, .wayDone auth reject ending =>
    execWayDone s e k hdr force ok auth reject ending
  | .stub _, .stubReceive auth => execStubReceive s k auth
  | .stub _, .stubTransmit => some (execStubTransmit s k)
  | .stub hdr, .stubReturn ending => execStubReturn s e k hdr ending
  | _, _ => none

/-- A new call comes after every earlier one. -/
def follows (calls : List ClientCall) (c : ClientCall) : Bool :=
  calls.all fun c' => Serial.Lt c'.seq c.seq ∧ ¬ Serial.Lt c.seq c'.seq

/-- The packet belongs to a call of the client. -/
def ofCall (calls : List ClientCall) (hdr : PktHdr) : Bool :=
  calls.any fun c => c.seq = hdr.seq ∧ c.idem = hdr.seqIdem ∧ c.maybe = hdr.seqMaybe

/-- The packet has no hint, or the one that the server sends out with its packets. -/
def ownHint (s : Server) (hdr : PktHdr) : Bool :=
  hdr.ahint.toNat = noHint ∨ s.sct.any fun scte => scte.ahint = hdr.ahint.toNat

def serverStep (cfg : ServerConfig) (sys : System) : ServerEvent → Option System
  | .clientCall c =>
    if follows sys.calls c then some { sys with calls := c :: sys.calls } else none
  | .request pkt env invoke =>
    if ofCall sys.calls pkt.hdr ∧ ownHint sys.server pkt.hdr then
      (doRequest cfg sys.server pkt env invoke).map fun s => { sys with server := s }
    else none
  | .ping _ => some sys
  | .ack hdr => some { sys with server := doAck cfg sys.server hdr }
  | .quit hdr => (doQuit cfg sys.server hdr).map fun s => { sys with server := s }
  | .timer k aged => (scallTimer sys.server k aged).map fun s => { sys with server := s }
  | .signalFailure k st =>
    some { sys with server := sys.server.updScall k (signalFailure st) }
  | .exec e ev => do
    let c ← sys.calls.head?
    let ex ← sys.server.execs[e]?
    let s ← execStep c.seq sys.server e ex.scall ex.pc ev
    some { sys with server := s }

/-! ### Runs written out -/

/-- The server booted at time 1. -/
def bootOne : ServerConfig := { boot := 1, actidHash := 0 }

/-- Fragment `n` of call `seq`, for that server. -/
def callPkt (seq : BitVec 32) (flags : BitVec 8) (n : BitVec 16) : Pkt :=
  { hdr := { flags := flags, seq := seq, serverBoot := 1, fragnum := n } }

def request (seq : BitVec 32) (flags : BitVec 8) (n : BitVec 16) : ServerEvent :=
  .request (callPkt seq flags n) {} .ok

/-- Executor `e` starts and takes its first packet. -/
def takeFirst (e : ℕ) : List ServerEvent :=
  [.exec e (.start false), .exec e (.receive .passed false none)]

end Dg
