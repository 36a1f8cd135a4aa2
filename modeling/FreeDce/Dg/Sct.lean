/-
The server connection table (dgsct.c).

The table is restricted to the entries of one activity, since a look-up compares
activity ids.  There should be one entry; that there is only one is a property
of runs, not of the data type.
-/
import FreeDce.Dg.Scall

namespace Dg

def sctSize : ℕ := 101
def noHint : ℕ := 0xffff

/-- The server's boot time, and the hash of the activity id. -/
structure ServerConfig where
  boot : BitVec 32
  actidHash : ℕ

def sctHash (cfg : ServerConfig) : ℕ := cfg.actidHash % sctSize

/-- The chain to start with. -/
def sctProbe (cfg : ServerConfig) (probeHint : ℕ) : ℕ :=
  if probeHint = noHint ∨ sctSize ≤ probeHint then sctHash cfg else probeHint

/-- `rpc__dg_sct_lookup`: the hinted chain first, then the chain of the hash. -/
def sctLookup (cfg : ServerConfig) (sct : List SctElt) (probeHint : ℕ) : Option ℕ :=
  let probe := sctProbe cfg probeHint
  match sct.findIdx? fun scte => scte.ahint = probe with
  | some i => some i
  | none =>
    if probe = probeHint ∧ sctHash cfg ≠ probeHint then
      sct.findIdx? fun scte => scte.ahint = sctHash cfg
    else none

/-- `rpc__dg_sct_get`: look the entry up, or make one in the hinted chain. -/
def sctGet (cfg : ServerConfig) (sct : List SctElt) (probeHint : ℕ) (seq : BitVec 32) :
    List SctElt × ℕ :=
  let probe := sctProbe cfg probeHint
  match sctLookup cfg sct probe with
  | some i => (sct, i)
  | none => (sct ++ [({ ahint := probe, highSeq := seq - 1 } : SctElt)], sct.length)

/-- `rpc__dg_sct_inq_scall`. -/
def sctInqScall (s : Server) (scte : SctElt) (seq : BitVec 32) : Option ℕ :=
  let onMaybeChain := scte.maybeChain.find? fun k => (s.scalls[k]?).map Scall.callSeq = some seq
  match scte.scall with
  | some k =>
    match s.scalls[k]? with
    | some sc =>
      if Serial.Le sc.callSeq seq then
        -- a call that was backed out does not represent any useful state
        if sc.callSeq ≠ scte.highSeq then none else some k
      else onMaybeChain
    | none => onMaybeChain
  | none => onMaybeChain

/-- The handle that `rpc__dg_sct_new_call` reinitialises for the call, if it does
not allocate one. -/
def sctReusedScall (s : Server) (scte : SctElt) (scallp : Option ℕ) (hdr : PktHdr) :
    Option ℕ :=
  match scallp with
  | some k => some k
  | none =>
    match scte.scall with
    | some k =>
      -- an out of order maybe call does not count as an implicit ack
      if hdr.seqMaybe ∧ (s.scalls[k]?).any fun sc => Serial.Lt hdr.seq sc.callSeq then none
      else some k
    | none => none

/-- Where the connection's sequence number goes with a new call. -/
def sctRaise (hdr : PktHdr) (scte : SctElt) : SctElt :=
  if hdr.seqMaybe = false ∨ Serial.Lt scte.highSeq hdr.seq then
    { scte with highSeq := hdr.seq }
  else scte

/-- `rpc__dg_sct_new_call` returns the handle for the call; `none` is the fatal
error for an invalid sequence number. -/
def sctNewCall (s : Server) (i : ℕ) (scallp : Option ℕ) (hdr : PktHdr) :
    Option (Server × ℕ) := do
  let scte ← s.sct[i]?
  if Serial.Lt hdr.seq scte.highSeq ∧ hdr.seqMaybe = false then
    none
  else
    let s := { s with accepted := hdr.seq :: s.accepted }
    match sctReusedScall s scte scallp hdr with
    | some k => some ((scallReinit s k hdr).updScte i (sctRaise hdr), k)
    | none => some ((scallAlloc s i hdr).updScte i (sctRaise hdr), s.scalls.length)

/-- `rpc__dg_sct_backout_new_call`. -/
def sctBackoutNewCall (s : Server) (scte : Option ℕ) (seq : BitVec 32) : Server :=
  let s := { s with accepted := s.accepted.erase seq }
  match scte with
  | some i => s.updScte i fun e => if seq = e.highSeq then { e with highSeq := e.highSeq - 1 } else e
  | none => s

/-- `RPC_DG_SCT_IS_WAY_VALIDATED`; `none` if the connection has no call handle to
look at. -/
def sctIsWayValidated (s : Server) (scte : SctElt) : Option Bool :=
  if scte.highSeqIsWayValidated then do
    let k ← scte.scall
    let sc ← s.scalls[k]?
    some (!sc.clientNeedsSboot)
  else some false

/-- The answer to a who-are-you callback raises the sequence number, but never
sets it backwards. -/
def wayRaise (seq : BitVec 32) (scte : SctElt) : SctElt :=
  { scte with
    highSeq := if Serial.Lt seq scte.highSeq then scte.highSeq else seq
    highSeqIsWayValidated := true }

/-- The end of `rpc__dg_sct_way_validate`, after a successful callback. -/
def sctWayAnswer (s : Server) (i : ℕ) (seq : BitVec 32) : Option Server := do
  let scte ← s.sct[i]?
  let s := s.updScte i (wayRaise seq)
  match scte.scall with
  | some k => some (s.updScall k fun sc => { sc with clientNeedsSboot := false })
  | none => some s

end Dg
