/-
The call executor (`rpc__dg_execute_call` in dgexec.c).

Each step is what an executor does between taking the call lock and giving it
up.  Outcomes that the rest of the runtime decides (whether a reservation has to
be made, what an authentication check or the look-up of the interface comes to,
whether the response could be sent) are arguments of the step.  `none` is a
failed assertion or the use of a null pointer.
-/
import FreeDce.Dg.Request

namespace Dg

/-- How the call ended for the executor. -/
structure Ending where
  /-- The response, a fault or a reject was sent. -/
  sent : Bool := true
  /-- It was a multi-fragment response. -/
  frag : Bool := false
  /-- The call was rejected or faulted. -/
  failed : Bool := false
deriving DecidableEq, Repr

/-- From the label `END_OF_CALL` on. -/
def endOfCall (s : Server) (e k : ℕ) (idem sent frag : Bool) : Server :=
  (s.setPc e .done).updScall k fun sc => { sc with
    state :=
      if (idem = false ∨ frag) ∧ sent then .final
      else if sc.state = .orphan then .orphan
      else .idle
    hasCallExecutorRef := false }

/-- From the label `AFTER_CALL_TO_STUB` on. -/
def afterCallToStub (s : Server) (e k : ℕ) (hdr : PktHdr) (ending : Ending) : Server :=
  if hdr.flagIsSet pfBroadcast ∧ ending.failed then
    endOfCall s e k hdr.seqIdem false ending.frag
  else
    let s := s.updScall k fun sc => { sc with rq := recvqFree sc.rq }
    let orphan := ((s.scalls[k]?).map Scall.state) = some .orphan
    endOfCall s e k hdr.seqIdem (ending.sent && !orphan) ending.frag

/-- The call is accepted: the server stub is entered. -/
def dispatch (s : Server) (e k : ℕ) (hdr : PktHdr) : Server :=
  let s := s.updScall k fun sc => { sc with rq := { sc.rq with isWayValidated := true } }
  { s.setPc e (.stub hdr) with dispatched := hdr :: s.dispatched }

/-! ### The steps -/

/-- The checks on entry, with the call locked. -/
def execStart (s : Server) (e k : ℕ) (needResv : Bool) : Option Server := do
  let s := s.updScall k fun sc => { sc with callIsQueued := false }
  let sc ← s.scalls[k]?
  if sc.state ≠ .recv then some (endOfCall s e k false false false)
  else some (s.setPc e (if needResv then .resv else .receive))

/-- The reservation was made; the state of the call is checked again. -/
def execResv (s : Server) (e k : ℕ) : Option Server := do
  let sc ← s.scalls[k]?
  if sc.state ≠ .recv then some (endOfCall s e k false false false)
  else some (s.setPc e .receive)

/-- From the first packet to the dispatch or to the who-are-you validation. -/
def execPrologue (s : Server) (e k : ℕ) (hdr : PktHdr) (force keyInfo : Bool)
    (reject : Option Ending) : Option Server := do
  let sc ← s.scalls[k]?
  let i ← sc.scte
  let scte ← s.sct[i]?
  match reject with
  | some ending => some (afterCallToStub s e k hdr { ending with failed := true })
  | none =>
    if hdr.seqMaybe = false ∧ (force ∨ keyInfo ∨ hdr.seqIdem = false) then
      let validated ← if force then some false else sctIsWayValidated s scte
      if validated then
        if sc.callSeq ≠ scte.highSeq then some (endOfCall s e k hdr.seqIdem false false)
        else some (dispatch s e k hdr)
      else some (s.setPc e (.wayLock hdr force))
    else if force then none
    else some (dispatch s e k hdr)

/-- One pass through the first receive. -/
def execReceive (s : Server) (e k : ℕ) (auth : AuthCheck) (keyInfo : Bool)
    (reject : Option Ending) : Option Server := do
  let sc ← s.scalls[k]?
  let res := callReceiveInt sc.status sc.state auth sc.rq
  let s := s.updScall k fun sc => { sc with rq := res.1 }
  match res.2 with
  | .failed _ => some (endOfCall s e k false false false)
  | .wait => some s
  | .endOfData => none
  | .needWayAuth iove => do
    let hdr ← iove.hdrp
    execPrologue s e k hdr true keyInfo reject
  | .data iove _ => do
    let hdr ← iove.hdrp
    execPrologue s e k hdr false keyInfo reject

/-- Both locks are held: check the call again, and start the callback if the
connection is not validated. -/
def execWayLock (s : Server) (e k : ℕ) (hdr : PktHdr) (force bindingOk : Bool) :
    Option Server := do
  let sc ← s.scalls[k]?
  if sc.state ≠ .recv then some (endOfCall s e k hdr.seqIdem false false)
  else
    let i ← sc.scte
    let scte ← s.sct[i]?
    let validated ← sctIsWayValidated s scte
    if validated ∧ force = false then some (s.setPc e (.wayDone hdr force true))
    else if scte.scall = none ∨ bindingOk = false then
      some (s.setPc e (.wayDone hdr force false))
    else some (s.setPc e (.wayCall hdr force i))

/-- The callback returned, with the sequence number the client gave, or failed. -/
def execWayAnswer (s : Server) (e : ℕ) (hdr : PktHdr) (force : Bool) (i : ℕ)
    (answer : Option (BitVec 32)) : Option Server :=
  match answer with
  | none => some (s.setPc e (.wayDone hdr force false))
  | some seq => (sctWayAnswer s i seq).map fun s => s.setPc e (.wayDone hdr force true)

/-- The call is locked again after the validation. -/
def execWayDone (s : Server) (e k : ℕ) (hdr : PktHdr) (force ok : Bool) (auth : AuthCheck)
    (reject : Option Ending) (ending : Ending) : Option Server := do
  let sc ← s.scalls[k]?
  let rejected := afterCallToStub s e k hdr { ending with failed := true }
  if sc.state ≠ .recv then some (endOfCall s e k hdr.seqIdem false false)
  else if ok = false then some rejected
  else
    let i ← sc.scte
    let scte ← s.sct[i]?
    if sc.callSeq ≠ scte.highSeq then some (endOfCall s e k hdr.seqIdem false false)
    else if reject.isSome then some rejected
    else if force then
      -- the packet is still on the queue
      let res := callReceiveInt sc.status sc.state auth sc.rq
      let s := s.updScall k fun sc => { sc with rq := res.1 }
      match res.2 with
      | .data iove _ => if iove.hdrp = some hdr then some (dispatch s e k hdr) else none
      | .failed _ | .needWayAuth _ => some rejected
      | .wait => some s
      | .endOfData => none
    else some (dispatch s e k hdr)

/-- The stub asks for more data. -/
def execStubReceive (s : Server) (k : ℕ) (auth : AuthCheck) : Option Server := do
  let sc ← s.scalls[k]?
  some (s.updScall k fun sc' => { sc' with rq := (callReceiveInt sc.status sc.state auth sc.rq).1 })

/-- The stub sends data. -/
def execStubTransmit (s : Server) (k : ℕ) : Server :=
  s.updScall k fun sc => if sc.status = .ok then { sc with state := .xmit } else sc

/-- The stub returned. -/
def execStubReturn (s : Server) (e k : ℕ) (hdr : PktHdr) (ending : Ending) :
    Option Server := do
  let sc ← s.scalls[k]?
  if sc.state ≠ .recv ∧ sc.state ≠ .xmit then
    some (endOfCall s e k hdr.seqIdem false ending.frag)
  else some (afterCallToStub s e k hdr ending)

end Dg
