/-
The server's watch over its clients (dgslive.c): client handles, their registrations, and the
monitor thread that runs down the clients it has not heard from.

An event is what happens between two points where the monitor mutex is free.  The thread gives the
mutex up while it calls a rundown routine, so a pass over the table is a sequence of such events.

* `Sound` — counts, references, registrations and rundown calls agree;
* `Fits` — the events that keep them so;
* `watched_of_along` — in a run whose events all fit, every state is sound.
-/
import FreeDce.Dg.SctTable
import FreeDce.Dg.ServerInv

namespace Dg

namespace Live

open Runs

/-! ### Data -/

def clientTableSize : ℕ := 29

/-- `RPC_CLOCK_SEC(LIVE_TIMEOUT_INTERVAL)`. -/
def liveTimeout : BitVec 32 := 120 * 5

/-- `CLIENT_HASH_PROBE`. -/
def probe (casUuid : Table.Actid) : ℕ := (Table.uuidHash casUuid).toNat % clientTableSize

/-- `rpc_dg_client_rep_t`, with its history: how often it was registered, how many registrations were
stopped, and how often its rundown routine was called. -/
structure ClientRep where
  casUuid : Table.Actid
  rundown : Bool := false
  lastUpdate : BitVec 32 := 0
  refcnt : ℕ := 2
  freed : Bool := false
  registered : ℕ := 0
  stopped : ℕ := 0
  ranDown : ℕ := 0

/-- Where the monitor thread is. -/
inductive MonitorPc
  /-- There is none. -/
  | stopped
  | waiting
  /-- In the rundown routine of a client on chain `i`. -/
  | rundown (i client : ℕ)
deriving DecidableEq

/-- A connection entry, as far as its client handle goes. -/
structure Scte where
  client : Option ℕ := none
  live : Bool := true

/-- A call of a rundown routine. -/
structure RundownCall where
  client : ℕ
  lastUpdate : BitVec 32
  clock : BitVec 32

/-- The client table, `active_monitors`, `monitor_running` and the thread, the connection entries and
those that wait for the answer to their callback.  `readFreed` says that a handle was read after it
had been freed. -/
structure Monitors where
  clients : List ClientRep := []
  table : ℕ → List ℕ := fun _ => []
  activeMonitors : ℤ := 0
  monitorRunning : Bool := false
  thread : MonitorPc := .stopped
  sctes : List Scte := []
  asking : List ℕ := []
  calls : List RundownCall := []
  readFreed : Bool := false

def Monitors.updClient (s : Monitors) (c : ℕ) (f : ClientRep → ClientRep) : Monitors :=
  { s with clients := s.clients.modify c f }

/-- The handle is read. -/
def Monitors.touch (s : Monitors) (client : ClientRep) : Monitors :=
  { s with readFreed := s.readFreed || client.freed }

/-! ### Registrations -/

/-- `rpc__dg_network_mon`.  The status for a handle that is not in the table, or is registered
already, is left out. -/
def networkMon (s : Monitors) (c : ℕ) (clock : BitVec 32) : Option Monitors := do
  let client ← s.clients[c]?
  let s := s.touch client
  if c ∉ s.table (probe client.casUuid) ∨ client.rundown then some s
  else
    let s := s.updClient c fun client =>
      { client with rundown := true, lastUpdate := clock, registered := client.registered + 1 }
    let s := { s with activeMonitors := s.activeMonitors + 1 }
    if s.monitorRunning then some s
    else some { s with monitorRunning := true, thread := .waiting }

/-- `rpc__dg_network_stop_mon`. -/
def networkStopMon (s : Monitors) (c : ℕ) : Option Monitors := do
  let client ← s.clients[c]?
  let s := s.touch client
  if c ∈ s.table (probe client.casUuid) ∧ client.rundown then
    let s := s.updClient c fun client =>
      { client with rundown := false, stopped := client.stopped + 1 }
    some { s with activeMonitors := s.activeMonitors - 1 }
  else some s

/-! ### Client handles -/

/-- `find_client`. -/
def findClient (s : Monitors) (casUuid : Table.Actid) : Option ℕ :=
  (s.table (probe casUuid)).find? fun c => (s.clients[c]?).any fun client =>
    client.casUuid = casUuid

/-- `rpc__dg_convc_indy`. -/
def convcIndy (s : Monitors) (casUuid : Table.Actid) (clock : BitVec 32) : Monitors :=
  match findClient s casUuid with
  | some c => s.updClient c fun client => { client with lastUpdate := clock }
  | none => s

/-- The first half of `rpc__dg_binding_inq_client`: without a handle the client is called back. -/
def inqClient (s : Monitors) (i : ℕ) : Option Monitors := do
  let scte ← s.sctes[i]?
  if scte.live = false then none
  else if scte.client.isSome then some s
  else some { s with asking := i :: s.asking }

/-- The second half, with the answer of the client, if it came and the call is not orphaned. -/
def inqClientAnswer (s : Monitors) (i : ℕ) (answer : Option Table.Actid) : Option Monitors :=
  if i ∈ s.asking then
    let s := { s with asking := s.asking.erase i }
    match answer with
    | none => some s
    | some casUuid =>
      match findClient s casUuid with
      | some c =>
        let s := s.updClient c fun client => { client with refcnt := client.refcnt + 1 }
        some { s with sctes := s.sctes.modify i fun scte => { scte with client := some c } }
      | none =>
        let c := s.clients.length
        some { s with
          clients := s.clients ++ [{ casUuid := casUuid }]
          table := Function.update s.table (probe casUuid) (c :: s.table (probe casUuid))
          sctes := s.sctes.modify i fun scte => { scte with client := some c } }
  else none

/-- `rpc__dg_client_free`. -/
def clientFree (s : Monitors) (c : ℕ) (client : ClientRep) : Monitors :=
  if c ∈ s.table (probe client.casUuid) then
    { s.updClient c fun client => { client with freed := true } with
      table := Function.update s.table (probe client.casUuid)
        ((s.table (probe client.casUuid)).erase c) }
  else s

/-- The timer of the connection table releases an entry that no call uses, unless its client is
monitored (`RPC_DG_CLIENT_RELEASE`). -/
def releaseScte (s : Monitors) (i : ℕ) : Option Monitors := do
  let scte ← s.sctes[i]?
  if i ∈ s.asking then none
  else
    match scte.client with
    | none => some { s with sctes := s.sctes.modify i fun _ => { client := none, live := false } }
    | some c => do
      let client ← s.clients[c]?
      let s := s.touch client
      if client.rundown then some s
      else
        let s := s.updClient c fun client => { client with refcnt := client.refcnt - 1 }
        let s := { s with sctes := s.sctes.modify i fun _ => { client := none, live := false } }
        if client.refcnt - 1 = 1 then some (clientFree s c client) else some s

/-! ### The monitor thread -/

/-- `rpc__clock_aged`, for a client that is registered. -/
def expired (s : Monitors) (clock : BitVec 32) (c : ℕ) : Bool :=
  (s.clients[c]?).any fun client => client.rundown ∧ client.lastUpdate + liveTimeout ≤ clock

/-- The mutex is given up, and the rundown routine is called. -/
def callRundown (s : Monitors) (i c : ℕ) (clock : BitVec 32) : Monitors :=
  match s.clients[c]? with
  | some client =>
    { s.updClient c fun client => { client with ranDown := client.ranDown + 1 } with
      thread := .rundown i c
      calls := ⟨c, client.lastUpdate, clock⟩ :: s.calls }
  | none => s

/-- The thread goes on with `rest` on chain `i`, and `n` chains behind it. -/
def walk (s : Monitors) (clock : BitVec 32) : ℕ → ℕ → List ℕ → Monitors
  | n, i, rest =>
    match if s.activeMonitors ≠ 0 then rest.find? (expired s clock) else none with
    | some c => callRundown s i c clock
    | none =>
      if s.activeMonitors = 0 then { s with thread := .stopped, monitorRunning := false }
      else
        match n with
        | 0 => { s with thread := .waiting }
        | n + 1 => walk s clock n (i + 1) (s.table (i + 1))

/-- A pass begins. -/
def monitorPass (s : Monitors) (clock : BitVec 32) : Option Monitors :=
  if s.thread = .waiting then some (walk s clock (clientTableSize - 1) 0 (s.table 0)) else none

/-- The rundown routine returned: the client is no longer monitored, and the thread follows its
`next` pointer. -/
def rundownDone (s : Monitors) (clock : BitVec 32) : Option Monitors :=
  match s.thread with
  | .rundown i c => do
    let client ← s.clients[c]?
    let s := s.touch client
    let s := s.updClient c fun client => { client with rundown := false }
    let s := { s with activeMonitors := s.activeMonitors - 1, thread := .waiting }
    some (walk s clock (clientTableSize - 1 - i) i ((s.table i).dropWhile fun c' => c' ≠ c).tail)
  | _ => none

/-! ### Runs -/

inductive Event
  | mon (c : ℕ) (clock : BitVec 32)
  | stopMon (c : ℕ)
  | indy (casUuid : Table.Actid) (clock : BitVec 32)
  | newScte
  | inqClient (i : ℕ)
  | inqClientAnswer (i : ℕ) (answer : Option Table.Actid)
  | releaseScte (i : ℕ)
  | monitorPass (clock : BitVec 32)
  | rundownDone (clock : BitVec 32)

def step (s : Monitors) : Event → Option Monitors
  | .mon c clock => networkMon s c clock
  | .stopMon c => networkStopMon s c
  | .indy casUuid clock => some (convcIndy s casUuid clock)
  | .newScte => some { s with sctes := s.sctes ++ [{}] }
  | .inqClient i => inqClient s i
  | .inqClientAnswer i answer => inqClientAnswer s i answer
  | .releaseScte i => releaseScte s i
  | .monitorPass clock => monitorPass s clock
  | .rundownDone clock => rundownDone s clock

/-- The thread is in the rundown routine of the client. -/
def Monitors.runningDown (s : Monitors) (c : ℕ) : Bool :=
  match s.thread with
  | .rundown _ c' => c' = c
  | _ => false

/-- The registration of a client that neither was stopped nor is being run down. -/
def Monitors.outstanding (s : Monitors) (c : ℕ) (client : ClientRep) : ℕ :=
  if client.rundown = true ∧ s.runningDown c = false then 1 else 0

/-- The number of connection entries that point to the handle. -/
def Monitors.refs (s : Monitors) (c : ℕ) : ℕ := s.sctes.countP fun scte => scte.client = some c

/-- The count is the number of registered handles; a handle has one reference and that of its
entries, and is the only one of its address space; a registration ended by one stop or one rundown
call, or is outstanding; rundown routines are called after the time-out; no freed handle is read; and
while a client is monitored there is a thread. -/
structure Sound (s : Monitors) : Prop where
  count : s.activeMonitors = s.clients.countP ClientRep.rundown
  refcnt : ∀ c client, s.clients[c]? = some client → client.freed = false →
    client.refcnt = 1 + s.refs c
  unique : ∀ (c c' : ℕ) (client client' : ClientRep), s.clients[c]? = some client → s.clients[c']? = some client' →
    client.freed = false → client'.freed = false → client.casUuid = client'.casUuid → c = c'
  ended : ∀ c client, s.clients[c]? = some client →
    client.registered = client.stopped + client.ranDown + s.outstanding c client
  aged : ∀ call ∈ s.calls, call.lastUpdate.toNat + liveTimeout.toNat ≤ call.clock.toNat
  live : s.readFreed = false
  running : ∀ client ∈ s.clients, client.rundown = true →
    s.monitorRunning = true ∧ s.thread ≠ .stopped

/-- A handle that is used is not freed, a registration is not stopped while it is being run down, an
entry gets its client once, and the clock is not within a time-out of running over. -/
def Fits (s : Monitors) : Event → Prop
  | .mon c clock => (∀ client, s.clients[c]? = some client → client.freed = false) ∧
      clock.toNat + liveTimeout.toNat < 2 ^ 32
  | .stopMon c => (∀ client, s.clients[c]? = some client → client.freed = false) ∧
      s.runningDown c = false
  | .indy _ clock => clock.toNat + liveTimeout.toNat < 2 ^ 32
  | .inqClientAnswer i (some _) => ∀ scte, s.sctes[i]? = some scte → scte.client = none
  | _ => True

/-- What the operations rely on beyond that. -/
structure Valid (s : Monitors) : Prop where
  chain : ∀ i c, c ∈ s.table i ↔
    ∃ client, s.clients[c]? = some client ∧ client.freed = false ∧ probe client.casUuid = i
  nodup : ∀ i, (s.table i).Nodup
  scte : ∀ scte ∈ s.sctes, ∀ c, scte.client = some c →
    ∃ client, s.clients[c]? = some client ∧ client.freed = false
  freed : ∀ client ∈ s.clients, client.freed = true → client.rundown = false
  clock : ∀ client ∈ s.clients, client.lastUpdate.toNat + liveTimeout.toNat < 2 ^ 32
  thread : ∀ i c, s.thread = .rundown i c →
    ∃ client, s.clients[c]? = some client ∧ client.freed = false ∧ client.rundown = true
  flag : s.monitorRunning = true ↔ s.thread ≠ .stopped
  asking : ∀ i ∈ s.asking, i < s.sctes.length

/-! ### One client changes -/

variable {s t : Monitors} {c : ℕ} {client : ClientRep} {f : ClientRep → ClientRep}

theorem getElem?_upd {l : List ClientRep} {k : ℕ} {x : ClientRep} (hx : l[k]? = some x) :
    (l.modify c f)[k]? = some (if c = k then f x else x) := by
  rw [List.getElem?_modify, hx]
  split <;> rfl

theorem getElem?_upd_inv {l : List ClientRep} {k : ℕ} {y : ClientRep}
    (hy : (l.modify c f)[k]? = some y) :
    ∃ x, l[k]? = some x ∧ y = if c = k then f x else x := by
  rw [List.getElem?_modify, Option.map_eq_map, Option.map_eq_some_iff] at hy
  obtain ⟨x, hx, rfl⟩ := hy
  refine ⟨x, hx, ?_⟩
  split <;> rfl

/-- A registered client is counted. -/
theorem countP_pos {l : List ClientRep} (hmem : client ∈ l) (hrun : client.rundown = true) :
    0 < l.countP ClientRep.rundown :=
  List.countP_pos_iff.mpr ⟨client, hmem, hrun⟩

/-- What an update of one client has to see to, so that everything stays right. -/
theorem sound_update_refs (hs : Sound s) (hval : Valid s) (hc : s.clients[c]? = some client)
    (ht : t.clients = s.clients.modify c f) (htable : t.table = s.table)
    (hsame : ∀ x, (f x).casUuid = x.casUuid ∧ (f x).freed = x.freed)
    (hrefs : ∀ k x, s.clients[k]? = some x → x.freed = false →
      (if c = k then f x else x).refcnt + s.refs k = x.refcnt + t.refs k)
    (hscte : ∀ scte ∈ t.sctes, ∀ k, scte.client = some k →
      ∃ x, s.clients[k]? = some x ∧ x.freed = false)
    (hasking : ∀ i ∈ t.asking, i < t.sctes.length)
    (hfreed : client.freed = true → (f client).rundown = false)
    (hclock : (f client).lastUpdate.toNat + liveTimeout.toNat < 2 ^ 32)
    (hactive : t.activeMonitors + (if client.rundown then 1 else 0) =
      s.activeMonitors + if (f client).rundown then 1 else 0)
    (hended : (f client).registered =
      (f client).stopped + (f client).ranDown + t.outstanding c (f client))
    (hothers : ∀ k, k ≠ c → t.runningDown k = s.runningDown k)
    (hcalls : ∀ call ∈ t.calls, call.lastUpdate.toNat + liveTimeout.toNat ≤ call.clock.toNat)
    (hlive : t.readFreed = false)
    (hrun : (f client).rundown = true ∨ s.monitorRunning = true → t.monitorRunning = true)
    (hthread : ∀ i k, t.thread = .rundown i k →
      ∃ x, t.clients[k]? = some x ∧ x.freed = false ∧ x.rundown = true)
    (hflag : t.monitorRunning = true ↔ t.thread ≠ .stopped) : Sound t ∧ Valid t := by
  have hget : ∀ (k : ℕ) (y : ClientRep), t.clients[k]? = some y →
      ∃ x : ClientRep, s.clients[k]? = some x ∧ y = if c = k then f x else x := by
    intro k y hy
    rw [ht] at hy
    exact getElem?_upd_inv hy
  have hkeep : ∀ (k : ℕ) (y : ClientRep), t.clients[k]? = some y → ∃ x : ClientRep, s.clients[k]? = some x ∧
      y.casUuid = x.casUuid ∧ y.freed = x.freed := by
    intro k y hy
    obtain ⟨x, hx, rfl⟩ := hget k y hy
    refine ⟨x, hx, ?_⟩
    split
    · exact hsame x
    · exact ⟨rfl, rfl⟩
  have hkeep' : ∀ (k : ℕ) (x : ClientRep), s.clients[k]? = some x → ∃ y : ClientRep, t.clients[k]? = some y ∧
      y.casUuid = x.casUuid ∧ y.freed = x.freed := by
    intro k x hx
    refine ⟨if c = k then f x else x, by rw [ht, getElem?_upd hx], ?_⟩
    split
    · exact hsame x
    · exact ⟨rfl, rfl⟩
  have hcases : ∀ y ∈ t.clients, y = f client ∨ y ∈ s.clients := by
    intro y hy
    obtain ⟨k, hk⟩ := List.mem_iff_getElem?.mp hy
    obtain ⟨x, hx, rfl⟩ := hget k y hk
    split
    · next heq =>
      rw [← heq, hc, Option.some_inj] at hx
      exact .inl (by rw [hx])
    · exact .inr (List.mem_of_getElem? hx)
  refine ⟨⟨?_, ?_, ?_, ?_, hcalls, hlive, ?_⟩, ⟨?_, ?_, ?_, ?_, ?_, hthread, hflag, hasking⟩⟩
  · have hcount := countP_modify (p := ClientRep.rundown) (f := f) hc
    have hold := hs.count
    rw [ht]
    split_ifs at hcount hactive <;> omega
  · intro k y hy hfree
    obtain ⟨x, hx, rfl⟩ := hget k y hy
    have hfree' : x.freed = false := by
      by_cases hk : c = k
      · rw [if_pos hk, (hsame x).2] at hfree
        exact hfree
      · rwa [if_neg hk] at hfree
    have hold := hs.refcnt k x hx hfree'
    have hnew := hrefs k x hx hfree'
    omega
  · intro k k' y y' hy hy' hfree hfree' heq
    obtain ⟨x, hx, huuid, hfr⟩ := hkeep k y hy
    obtain ⟨x', hx', huuid', hfr'⟩ := hkeep k' y' hy'
    exact hs.unique k k' x x' hx hx' (hfr ▸ hfree) (hfr' ▸ hfree') (by rw [← huuid, ← huuid', heq])
  · intro k y hy
    obtain ⟨x, hx, rfl⟩ := hget k y hy
    by_cases hk : c = k
    · rw [← hk, hc, Option.some_inj] at hx
      rw [if_pos hk, ← hk, ← hx]
      exact hended
    · have hold := hs.ended k x hx
      rw [if_neg hk, Monitors.outstanding, hothers k (Ne.symm hk)]
      exact hold
  · intro y hy hrundown
    have hmon : t.monitorRunning = true := by
      rcases hcases y hy with rfl | hold
      · exact hrun (.inl hrundown)
      · exact hrun (.inr (hs.running y hold hrundown).1)
    exact ⟨hmon, hflag.mp hmon⟩
  · intro i k
    rw [htable, hval.chain i k]
    constructor
    · rintro ⟨x, hx, hfree, hprobe⟩
      obtain ⟨y, hy, huuid, hfr⟩ := hkeep' k x hx
      exact ⟨y, hy, hfr.trans hfree, by rw [huuid, hprobe]⟩
    · rintro ⟨y, hy, hfree, hprobe⟩
      obtain ⟨x, hx, huuid, hfr⟩ := hkeep k y hy
      exact ⟨x, hx, hfr ▸ hfree, by rw [← huuid, hprobe]⟩
  · intro i
    rw [htable]
    exact hval.nodup i
  · intro scte hmem k hk
    obtain ⟨x, hx, hfree⟩ := hscte scte hmem k hk
    obtain ⟨y, hy, -, hfr⟩ := hkeep' k x hx
    exact ⟨y, hy, hfr.trans hfree⟩
  · intro y hy hfr
    rcases hcases y hy with rfl | hold
    · exact hfreed ((hsame client).2 ▸ hfr)
    · exact hval.freed y hold hfr
  · intro y hy
    rcases hcases y hy with rfl | hold
    · exact hclock
    · exact hval.clock y hold

/-- An update that has nothing to do with the references. -/
theorem sound_update (hs : Sound s) (hval : Valid s) (hc : s.clients[c]? = some client)
    (ht : t.clients = s.clients.modify c f) (htable : t.table = s.table)
    (hsctes : t.sctes = s.sctes ∧ t.asking = s.asking)
    (hsame : ∀ x, (f x).casUuid = x.casUuid ∧ (f x).freed = x.freed ∧ (f x).refcnt = x.refcnt)
    (hfreed : client.freed = true → (f client).rundown = false)
    (hclock : (f client).lastUpdate.toNat + liveTimeout.toNat < 2 ^ 32)
    (hactive : t.activeMonitors + (if client.rundown then 1 else 0) =
      s.activeMonitors + if (f client).rundown then 1 else 0)
    (hended : (f client).registered =
      (f client).stopped + (f client).ranDown + t.outstanding c (f client))
    (hothers : ∀ k, k ≠ c → t.runningDown k = s.runningDown k)
    (hcalls : ∀ call ∈ t.calls, call.lastUpdate.toNat + liveTimeout.toNat ≤ call.clock.toNat)
    (hlive : t.readFreed = false)
    (hrun : (f client).rundown = true ∨ s.monitorRunning = true → t.monitorRunning = true)
    (hthread : ∀ i k, t.thread = .rundown i k →
      ∃ x, t.clients[k]? = some x ∧ x.freed = false ∧ x.rundown = true)
    (hflag : t.monitorRunning = true ↔ t.thread ≠ .stopped) : Sound t ∧ Valid t := by
  refine sound_update_refs hs hval hc ht htable (fun x => ⟨(hsame x).1, (hsame x).2.1⟩)
    (fun k x _ _ => ?_) (fun scte hmem => ?_) (fun i hi => ?_) hfreed hclock hactive hended hothers
    hcalls hlive hrun hthread hflag
  · have hrefs : t.refs k = s.refs k := by rw [Monitors.refs, Monitors.refs, hsctes.1]
    rw [hrefs]
    split
    · rw [(hsame x).2.2]
    · rfl
  · rw [hsctes.1] at hmem
    exact hval.scte scte hmem
  · rw [hsctes.2] at hi
    rw [hsctes.1]
    exact hval.asking i hi

theorem touch_of_not_freed (hfree : client.freed = false) : s.touch client = s := by
  rw [Monitors.touch, hfree, Bool.or_false]

/-! ### Registrations -/

theorem step_networkMon (hs : Sound s) (hval : Valid s) {clock : BitVec 32}
    (hfits : Fits s (.mon c clock)) (h : networkMon s c clock = some t) : Sound t ∧ Valid t := by
  obtain ⟨client, hc, h⟩ := Option.bind_eq_some_iff.mp h
  have hfree := hfits.1 client hc
  rw [touch_of_not_freed hfree] at h
  dsimp only at h
  split at h
  · cases h
    exact ⟨hs, hval⟩
  · next hnew =>
    rw [not_or, not_not, Bool.not_eq_true] at hnew
    have hidle : s.runningDown c = false := by
      by_contra hne
      rw [Bool.not_eq_false] at hne
      unfold Monitors.runningDown at hne
      split at hne
      · next i c' hpc =>
        obtain ⟨x, hx, -, hrun⟩ := hval.thread i c' hpc
        rw [of_decide_eq_true hne, hc, Option.some_inj] at hx
        rw [← hx, hnew.2] at hrun
        cases hrun
      · cases hne
    have hregistered := hs.ended c client hc
    simp only [Monitors.outstanding, hnew.2, Bool.false_eq_true, false_and, if_false] at hregistered
    split at h
    · next hrunning =>
      cases h
      refine sound_update hs hval hc rfl rfl ⟨rfl, rfl⟩ (fun _ => ⟨rfl, rfl, rfl⟩) (fun h => ?_) hfits.2 ?_
        ?_ (fun _ _ => rfl) hs.aged hs.live (fun _ => hrunning) (fun i k hpc => ?_) hval.flag
      · rw [hfree] at h
        cases h
      · simp [hnew.2, Monitors.updClient]
      · unfold Monitors.outstanding
        rw [if_pos ⟨rfl, hidle⟩]
        dsimp only
        omega
      · obtain ⟨x, hx, hfree', hrun⟩ := hval.thread i k hpc
        refine ⟨_, getElem?_upd hx, ?_⟩
        split
        · exact ⟨hfree', rfl⟩
        · exact ⟨hfree', hrun⟩
    · next hrunning =>
      cases h
      have hstopped : s.thread = .stopped := by
        by_contra hne
        exact hrunning (hval.flag.mpr hne)
      refine sound_update hs hval hc rfl rfl ⟨rfl, rfl⟩ (fun _ => ⟨rfl, rfl, rfl⟩) (fun h => ?_) hfits.2 ?_
        ?_ (fun k _ => ?_) hs.aged hs.live (fun _ => rfl) (fun i k hpc => by cases hpc)
        ⟨fun _ => by simp, fun _ => rfl⟩
      · rw [hfree] at h
        cases h
      · simp [hnew.2, Monitors.updClient]
      · unfold Monitors.outstanding
        rw [if_pos ⟨rfl, rfl⟩]
        dsimp only
        omega
      · simp [Monitors.runningDown, hstopped]

theorem step_networkStopMon (hs : Sound s) (hval : Valid s) (hfits : Fits s (.stopMon c))
    (h : networkStopMon s c = some t) : Sound t ∧ Valid t := by
  obtain ⟨client, hc, h⟩ := Option.bind_eq_some_iff.mp h
  have hfree := hfits.1 client hc
  rw [touch_of_not_freed hfree] at h
  dsimp only at h
  split at h
  · next hreg =>
    cases h
    have hregistered := hs.ended c client hc
    rw [Monitors.outstanding, if_pos ⟨hreg.2, hfits.2⟩] at hregistered
    refine sound_update hs hval hc rfl rfl ⟨rfl, rfl⟩ (fun _ => ⟨rfl, rfl, rfl⟩) (fun _ => rfl)
      (hval.clock client (List.mem_of_getElem? hc)) ?_ ?_ (fun _ _ => rfl) hs.aged hs.live
      (fun hor => ?_) (fun i k hpc => ?_) hval.flag
    · simp [hreg.2, Monitors.updClient]
    · unfold Monitors.outstanding
      rw [if_neg fun hand => Bool.false_ne_true hand.1]
      dsimp only
      omega
    · rcases hor with hrun | hrun
      · cases hrun
      · exact hrun
    · obtain ⟨x, hx, hfree', hrun⟩ := hval.thread i k hpc
      have hne : c ≠ k := by
        rintro rfl
        have hnot := hfits.2
        have hpc' : s.thread = .rundown i c := hpc
        simp [Monitors.runningDown, hpc'] at hnot
      refine ⟨_, getElem?_upd hx, ?_⟩
      rw [if_neg hne]
      exact ⟨hfree', hrun⟩
  · cases h
    exact ⟨hs, hval⟩

theorem findClient_spec (hval : Valid s) {casUuid : Table.Actid}
    (h : findClient s casUuid = some c) :
    ∃ client, s.clients[c]? = some client ∧ client.freed = false ∧ client.casUuid = casUuid := by
  obtain ⟨client, hc, hfree, -⟩ := (hval.chain _ c).mp (List.mem_of_find?_eq_some h)
  have hp := List.find?_some h
  rw [hc, Option.any_some, decide_eq_true_eq] at hp
  exact ⟨client, hc, hfree, hp⟩

theorem step_convcIndy (hs : Sound s) (hval : Valid s) {casUuid : Table.Actid} {clock : BitVec 32}
    (hfits : clock.toNat + liveTimeout.toNat < 2 ^ 32) :
    Sound (convcIndy s casUuid clock) ∧ Valid (convcIndy s casUuid clock) := by
  unfold convcIndy
  split
  · next c hfind =>
    obtain ⟨client, hc, hfree, -⟩ := findClient_spec hval hfind
    refine sound_update hs hval hc rfl rfl ⟨rfl, rfl⟩ (fun _ => ⟨rfl, rfl, rfl⟩)
      (hval.freed client (List.mem_of_getElem? hc)) hfits rfl (hs.ended c client hc) (fun _ _ => rfl)
      hs.aged hs.live (fun hor => ?_) (fun i k hpc => ?_) hval.flag
    · rcases hor with hrun | hrun
      · exact (hs.running client (List.mem_of_getElem? hc) hrun).1
      · exact hrun
    · obtain ⟨x, hx, hfree', hrun⟩ := hval.thread i k hpc
      refine ⟨_, getElem?_upd hx, ?_⟩
      split <;> exact ⟨hfree', hrun⟩
  · exact ⟨hs, hval⟩

/-! ### The monitor thread -/

theorem liveTimeout_le {time clock : BitVec 32} (hclock : time.toNat + liveTimeout.toNat < 2 ^ 32)
    (hle : time + liveTimeout ≤ clock) : time.toNat + liveTimeout.toNat ≤ clock.toNat := by
  have h := BitVec.le_def.mp hle
  rwa [BitVec.toNat_add, Nat.mod_eq_of_lt hclock] at h

theorem step_callRundown (hs : Sound s) (hval : Valid s) (hwait : s.thread = .waiting) {i : ℕ}
    {clock : BitVec 32} (hexp : expired s clock c = true) :
    Sound (callRundown s i c clock) ∧ Valid (callRundown s i c clock) := by
  obtain ⟨client, hc, hp⟩ := (Option.any_eq_true _ _).mp hexp
  obtain ⟨hrun, haged⟩ := of_decide_eq_true hp
  have hmem := List.mem_of_getElem? hc
  have hfree : client.freed = false := by
    by_contra hne
    rw [Bool.not_eq_false] at hne
    rw [hval.freed client hmem hne] at hrun
    cases hrun
  have hregistered := hs.ended c client hc
  have hidle : s.runningDown c = false := by rw [Monitors.runningDown, hwait]
  rw [Monitors.outstanding, if_pos ⟨hrun, hidle⟩] at hregistered
  have hrunning := (hs.running client hmem hrun).1
  unfold callRundown
  rw [hc]
  dsimp only
  refine sound_update hs hval hc rfl rfl ⟨rfl, rfl⟩ (fun _ => ⟨rfl, rfl, rfl⟩) (hval.freed client hmem)
    (hval.clock client hmem) rfl ?_ (fun k hk => ?_) (fun call hcall => ?_) hs.live
    (fun _ => hrunning) (fun j k hpc => ?_) ⟨fun _ => by simp, fun _ => hrunning⟩
  · unfold Monitors.outstanding
    rw [if_neg fun hand => by simp [Monitors.runningDown] at hand]
    dsimp only
    omega
  · rw [Monitors.runningDown, Monitors.runningDown, hwait]
    exact decide_eq_false (Ne.symm hk)
  · rcases List.mem_cons.mp hcall with rfl | hcall
    · exact liveTimeout_le (hval.clock client hmem) haged
    · exact hs.aged call hcall
  · cases hpc
    exact ⟨_, getElem?_upd hc, by rw [if_pos rfl]; exact ⟨hfree, hrun⟩⟩

/-- Only where the thread is changes. -/
theorem sound_thread (hs : Sound s) (hval : Valid s) {running : Bool} {pc : MonitorPc}
    (hpc : pc = .stopped ∨ pc = .waiting) (hout : ∀ c, s.runningDown c = false)
    (hrun : ∀ client ∈ s.clients, client.rundown = true → running = true)
    (hflag : running = true ↔ pc ≠ .stopped) :
    Sound { s with thread := pc, monitorRunning := running } ∧
      Valid { s with thread := pc, monitorRunning := running } := by
  have hidle : ∀ c, Monitors.runningDown { s with thread := pc, monitorRunning := running } c =
      false := by
    intro c
    rcases hpc with rfl | rfl <;> rfl
  refine ⟨⟨hs.count, hs.refcnt, hs.unique, fun c client hc => ?_, hs.aged, hs.live,
    fun client hmem hrundown => ⟨hrun client hmem hrundown, hflag.mp (hrun client hmem hrundown)⟩⟩,
    ⟨hval.chain, hval.nodup, hval.scte, hval.freed, hval.clock, fun i c hthread => ?_, hflag, hval.asking⟩⟩
  · have hold := hs.ended c client hc
    rw [Monitors.outstanding, hout c] at hold
    rw [Monitors.outstanding, hidle c]
    exact hold
  · have hthread' : pc = .rundown i c := hthread
    rcases hpc with rfl | rfl <;> cases hthread'

/-- Going on over the table keeps everything right. -/
theorem step_walk (hs : Sound s) (hval : Valid s) (hwait : s.thread = .waiting)
    (clock : BitVec 32) (n i : ℕ) (rest : List ℕ) :
    Sound (walk s clock n i rest) ∧ Valid (walk s clock n i rest) := by
  have hout : ∀ c, s.runningDown c = false := fun c => by rw [Monitors.runningDown, hwait]
  have hrunning : s.monitorRunning = true := hval.flag.mpr (by rw [hwait]; simp)
  induction n generalizing i rest with
  | zero =>
    unfold walk
    split
    · next c hfind =>
      split at hfind
      · exact step_callRundown hs hval hwait (List.find?_some hfind)
      · cases hfind
    · split
      · next hzero =>
        refine sound_thread hs hval (.inl rfl) hout (fun client hmem hrun => ?_) (by simp)
        have := countP_pos hmem hrun
        have := hs.count
        omega
      · have hsame := sound_thread hs hval (.inr rfl) hout
          (fun client hmem hrun => (hs.running client hmem hrun).1) (by simp [hrunning])
        exact hsame
  | succ n ih =>
    unfold walk
    split
    · next c hfind =>
      split at hfind
      · exact step_callRundown hs hval hwait (List.find?_some hfind)
      · cases hfind
    · split
      · next hzero =>
        refine sound_thread hs hval (.inl rfl) hout (fun client hmem hrun => ?_) (by simp)
        have := countP_pos hmem hrun
        have := hs.count
        omega
      · exact ih (i + 1) (s.table (i + 1))

theorem step_rundownDone (hs : Sound s) (hval : Valid s) {clock : BitVec 32}
    (h : rundownDone s clock = some t) : Sound t ∧ Valid t := by
  unfold rundownDone at h
  split at h
  · next i c hpc =>
    obtain ⟨client, hc, hfree, hrun⟩ := hval.thread i c hpc
    obtain ⟨client', hc', h⟩ := Option.bind_eq_some_iff.mp h
    obtain rfl : client = client' := Option.some_inj.mp (hc.symm.trans hc')
    rw [touch_of_not_freed hfree] at h
    have hregistered := hs.ended c client hc
    have hself : s.runningDown c = true := by simp [Monitors.runningDown, hpc]
    rw [Monitors.outstanding, if_neg fun hand => by rw [hself] at hand; exact nomatch hand.2]
      at hregistered
    have hrunning := (hs.running client (List.mem_of_getElem? hc) hrun).1
    have hdone : Sound { s.updClient c fun client => { client with rundown := false } with
        activeMonitors := s.activeMonitors - 1, thread := .waiting } ∧
        Valid { s.updClient c fun client => { client with rundown := false } with
        activeMonitors := s.activeMonitors - 1, thread := .waiting } := by
      refine sound_update hs hval hc rfl rfl ⟨rfl, rfl⟩ (fun _ => ⟨rfl, rfl, rfl⟩) (fun _ => rfl)
        (hval.clock client (List.mem_of_getElem? hc)) ?_ ?_ (fun k hk => ?_) hs.aged hs.live
        (fun _ => hrunning) (fun j k hthread => by cases hthread)
        ⟨fun _ => by simp, fun _ => hrunning⟩
      · simp [hrun]
      · unfold Monitors.outstanding
        rw [if_neg fun hand => Bool.false_ne_true hand.1]
        dsimp only
        omega
      · rw [Monitors.runningDown, Monitors.runningDown, hpc]
        exact (decide_eq_false (Ne.symm hk)).symm
    cases h
    exact step_walk hdone.1 hdone.2 rfl clock _ _ _
  · cases h

theorem step_monitorPass (hs : Sound s) (hval : Valid s) {clock : BitVec 32}
    (h : monitorPass s clock = some t) : Sound t ∧ Valid t := by
  unfold monitorPass at h
  split at h
  · next hwait =>
    cases h
    exact step_walk hs hval hwait clock _ _ _
  · cases h

/-! ### Connection entries -/

/-- An entry points to another client. -/
theorem refs_modify {i k : ℕ} {scte : Scte} {g : Scte → Scte} (hscte : s.sctes[i]? = some scte)
    (ht : t.sctes = s.sctes.modify i g) :
    t.refs k + (if scte.client = some k then 1 else 0) =
      s.refs k + if (g scte).client = some k then 1 else 0 := by
  have hcount := countP_modify (p := fun scte : Scte => scte.client = some k) (f := g) hscte
  simp only [decide_eq_true_eq] at hcount
  rw [Monitors.refs, Monitors.refs, ht]
  exact hcount

theorem sctes_modify {i : ℕ} {scte y : Scte} {g : Scte → Scte} (hscte : s.sctes[i]? = some scte)
    (hy : y ∈ s.sctes.modify i g) : y = g scte ∨ y ∈ s.sctes := by
  obtain ⟨j, hj⟩ := List.mem_iff_getElem?.mp hy
  rw [List.getElem?_modify, Option.map_eq_map, Option.map_eq_some_iff] at hj
  obtain ⟨x, hx, rfl⟩ := hj
  split
  · next heq =>
    rw [← heq, hscte, Option.some_inj] at hx
    exact .inl (by rw [hx])
  · exact .inr (List.mem_of_getElem? hx)

/-- No entry points to a handle that is still to be made. -/
theorem refs_fresh (hval : Valid s) : s.refs s.clients.length = 0 := by
  refine List.countP_eq_zero.mpr fun scte hmem => ?_
  rw [decide_eq_true_eq]
  intro heq
  obtain ⟨client, hc, -⟩ := hval.scte scte hmem _ heq
  exact absurd (List.getElem?_eq_some_iff.mp hc).1 (lt_irrefl _)

/-- Only the entries that ask change. -/
theorem sound_asking (hs : Sound s) (hval : Valid s) {l : List ℕ}
    (hl : ∀ i ∈ l, i < s.sctes.length) :
    Sound { s with asking := l } ∧ Valid { s with asking := l } :=
  ⟨⟨hs.count, hs.refcnt, hs.unique, hs.ended, hs.aged, hs.live, hs.running⟩,
    ⟨hval.chain, hval.nodup, hval.scte, hval.freed, hval.clock, hval.thread, hval.flag, hl⟩⟩

theorem step_newScte (hs : Sound s) (hval : Valid s) :
    Sound { s with sctes := s.sctes ++ [{}] } ∧ Valid { s with sctes := s.sctes ++ [{}] } := by
  refine ⟨⟨hs.count, fun k x hx hfree => ?_, hs.unique, hs.ended, hs.aged, hs.live, hs.running⟩,
    ⟨hval.chain, hval.nodup, fun scte hmem k hk => ?_, hval.freed, hval.clock, hval.thread,
      hval.flag, fun i hi => ?_⟩⟩
  · have hrefs : Monitors.refs { s with sctes := s.sctes ++ [{}] } k = s.refs k := by
      rw [Monitors.refs, Monitors.refs, List.countP_append]
      rfl
    rw [hrefs]
    exact hs.refcnt k x hx hfree
  · rcases List.mem_append.mp hmem with hmem | hmem
    · exact hval.scte scte hmem k hk
    · rw [List.mem_singleton.mp hmem] at hk
      cases hk
  · have := hval.asking i hi
    rw [List.length_append]
    omega

theorem step_inqClient (hs : Sound s) (hval : Valid s) {i : ℕ} (h : inqClient s i = some t) :
    Sound t ∧ Valid t := by
  obtain ⟨scte, hscte, h⟩ := Option.bind_eq_some_iff.mp h
  split at h
  · cases h
  · split at h
    · cases h
      exact ⟨hs, hval⟩
    · cases h
      refine sound_asking hs hval fun j hj => ?_
      rcases List.mem_cons.mp hj with rfl | hj
      · exact (List.getElem?_eq_some_iff.mp hscte).1
      · exact hval.asking j hj

/-- The entry shares the handle of its address space. -/
theorem sound_share (hs : Sound s) (hval : Valid s) {i : ℕ} {scte : Scte}
    (hscte : s.sctes[i]? = some scte) (hnone : scte.client = none)
    (hc : s.clients[c]? = some client) (hfree : client.freed = false)
    (ht : t = { s.updClient c fun client => { client with refcnt := client.refcnt + 1 } with
      sctes := s.sctes.modify i fun scte => { scte with client := some c } }) :
    Sound t ∧ Valid t := by
  have hmem := List.mem_of_getElem? hc
  have hrefs : ∀ k, t.refs k = s.refs k + if c = k then 1 else 0 := by
    intro k
    have h := refs_modify (k := k) (t := t) (g := fun scte => { scte with client := some c }) hscte
      (by rw [ht])
    rw [hnone] at h
    simpa using h
  subst ht
  refine sound_update_refs hs hval hc rfl rfl (fun _ => ⟨rfl, rfl⟩) (fun k x hx _ => ?_)
    (fun y hy k hk => ?_) (fun j hj => ?_) (hval.freed client hmem) (hval.clock client hmem) rfl
    (hs.ended c client hc) (fun _ _ => rfl) hs.aged hs.live (fun hor => ?_) (fun j k hpc => ?_)
    hval.flag
  · rw [hrefs k]
    split
    · change x.refcnt + 1 + s.refs k = _
      omega
    · rfl
  · rcases sctes_modify hscte hy with rfl | hold
    · obtain rfl : c = k := Option.some_inj.mp hk
      exact ⟨client, hc, hfree⟩
    · exact hval.scte y hold k hk
  · rw [List.length_modify]
    exact hval.asking j hj
  · rcases hor with hrun | hrun
    · exact (hs.running client hmem hrun).1
    · exact hrun
  · obtain ⟨x, hx, hfree', hrun⟩ := hval.thread j k hpc
    refine ⟨_, getElem?_upd hx, ?_⟩
    split <;> exact ⟨hfree', hrun⟩

/-- An address space is met for the first time. -/
theorem sound_newClient (hs : Sound s) (hval : Valid s) {i : ℕ} {scte : Scte}
    {casUuid : Table.Actid} (hscte : s.sctes[i]? = some scte) (hnone : scte.client = none)
    (hnew : ∀ (c : ℕ) (client : ClientRep), s.clients[c]? = some client →
      client.freed = false → client.casUuid ≠ casUuid)
    (ht : t = { s with
      clients := s.clients ++ [{ casUuid := casUuid }]
      table := Function.update s.table (probe casUuid)
        (s.clients.length :: s.table (probe casUuid))
      sctes := s.sctes.modify i fun scte => { scte with client := some s.clients.length } }) :
    Sound t ∧ Valid t := by
  have hclients : t.clients = s.clients ++ [{ casUuid := casUuid }] := by rw [ht]
  have hsctes : t.sctes = s.sctes.modify i fun scte => { scte with client := some s.clients.length } := by
    rw [ht]
  have hrefs : ∀ k, t.refs k = s.refs k + if s.clients.length = k then 1 else 0 := by
    intro k
    have h := refs_modify (k := k) (t := t)
      (g := fun scte => { scte with client := some s.clients.length }) hscte hsctes
    rw [hnone] at h
    simpa using h
  have hlast : t.clients[s.clients.length]? = some { casUuid := casUuid } := by
    rw [hclients, List.getElem?_concat_length]
  have hold : ∀ (k : ℕ) (x : ClientRep), s.clients[k]? = some x → t.clients[k]? = some x := by
    intro k x hx
    rw [hclients, List.getElem?_append_left (List.getElem?_eq_some_iff.mp hx).1, hx]
  have hget : ∀ (k : ℕ) (y : ClientRep), t.clients[k]? = some y →
      k < s.clients.length ∧ s.clients[k]? = some y ∨
        k = s.clients.length ∧ y = { casUuid := casUuid } := by
    intro k y hy
    have hlt := (List.getElem?_eq_some_iff.mp hy).1
    rw [hclients, List.length_append, List.length_singleton] at hlt
    rcases Nat.lt_or_ge k s.clients.length with hk | hk
    · rw [hclients, List.getElem?_append_left hk] at hy
      exact .inl ⟨hk, hy⟩
    · obtain rfl : k = s.clients.length := by omega
      rw [hlast, Option.some_inj] at hy
      exact .inr ⟨rfl, hy.symm⟩
  have hmem : ∀ y ∈ t.clients, y ∈ s.clients ∨ y = { casUuid := casUuid } := by
    intro y hy
    rw [hclients] at hy
    exact (List.mem_append.mp hy).imp_right List.mem_singleton.mp
  have hthread : t.thread = s.thread := by rw [ht]
  have houts : ∀ k y, t.outstanding k y = s.outstanding k y := by
    intro k y
    rw [Monitors.outstanding, Monitors.outstanding, Monitors.runningDown, Monitors.runningDown,
      hthread]
  have hchain : ∀ j, t.table j =
      if j = probe casUuid then s.clients.length :: s.table (probe casUuid) else s.table j := by
    intro j
    rw [ht]
    exact Function.update_apply _ _ _ _
  have hnotin : ∀ j, s.clients.length ∉ s.table j := by
    intro j hin
    obtain ⟨x, hx, -⟩ := (hval.chain j _).mp hin
    exact absurd (List.getElem?_eq_some_iff.mp hx).1 (lt_irrefl _)
  refine ⟨⟨?_, ?_, ?_, ?_, ?_, ?_, ?_⟩, ⟨?_, ?_, ?_, ?_, ?_, ?_, ?_, ?_⟩⟩
  · have hcount := hs.count
    rw [hclients, List.countP_append]
    have hactive : t.activeMonitors = s.activeMonitors := by rw [ht]
    rw [hactive, hcount]
    rfl
  · intro k y hy hfree
    rw [hrefs k]
    rcases hget k y hy with ⟨hlt, hy'⟩ | ⟨rfl, rfl⟩
    · rw [if_neg hlt.ne', Nat.add_zero]
      exact hs.refcnt k y hy' hfree
    · rw [if_pos rfl, refs_fresh hval]
  · intro k k' y y' hy hy' hfree hfree' heq
    rcases hget k y hy with ⟨-, hx⟩ | ⟨rfl, rfl⟩ <;> rcases hget k' y' hy' with ⟨-, hx'⟩ | ⟨rfl, rfl⟩
    · exact hs.unique k k' y y' hx hx' hfree hfree' heq
    · exact absurd heq (hnew k y hx hfree)
    · exact absurd heq.symm (hnew k' y' hx' hfree')
    · rfl
  · intro k y hy
    rw [houts]
    rcases hget k y hy with ⟨-, hx⟩ | ⟨rfl, rfl⟩
    · exact hs.ended k y hx
    · simp [Monitors.outstanding]
  · rw [ht]
    exact hs.aged
  · rw [ht]
    exact hs.live
  · intro y hy hrun
    have hflag : t.monitorRunning = s.monitorRunning := by rw [ht]
    rw [hflag, hthread]
    rcases hmem y hy with hy | rfl
    · exact hs.running y hy hrun
    · cases hrun
  · intro j k
    rw [hchain j]
    constructor
    · intro hin
      split at hin
      · next hj =>
        rcases List.mem_cons.mp hin with rfl | hin
        · exact ⟨_, hlast, rfl, hj.symm⟩
        · obtain ⟨x, hx, hfree, hprobe⟩ := (hval.chain _ k).mp hin
          exact ⟨x, hold k x hx, hfree, hprobe.trans hj.symm⟩
      · obtain ⟨x, hx, hfree, hprobe⟩ := (hval.chain j k).mp hin
        exact ⟨x, hold k x hx, hfree, hprobe⟩
    · rintro ⟨y, hy, hfree, hprobe⟩
      rcases hget k y hy with ⟨-, hx⟩ | ⟨rfl, rfl⟩
      · have hin := (hval.chain j k).mpr ⟨y, hx, hfree, hprobe⟩
        split
        · next hj => exact List.mem_cons_of_mem _ (hj ▸ hin)
        · exact hin
      · rw [if_pos hprobe.symm]
        exact List.mem_cons_self
  · intro j
    rw [hchain j]
    split
    · exact List.nodup_cons.mpr ⟨hnotin _, hval.nodup _⟩
    · exact hval.nodup j
  · intro y hy k hk
    rw [hsctes] at hy
    rcases sctes_modify hscte hy with rfl | hy
    · obtain rfl : s.clients.length = k := Option.some_inj.mp hk
      exact ⟨_, hlast, rfl⟩
    · obtain ⟨x, hx, hfree⟩ := hval.scte y hy k hk
      exact ⟨x, hold k x hx, hfree⟩
  · intro y hy hfr
    rcases hmem y hy with hy | rfl
    · exact hval.freed y hy hfr
    · rfl
  · intro y hy
    rcases hmem y hy with hy | rfl
    · exact hval.clock y hy
    · change (0 : BitVec 32).toNat + liveTimeout.toNat < 2 ^ 32
      decide
  · intro j k hpc
    rw [hthread] at hpc
    obtain ⟨x, hx, hfree, hrun⟩ := hval.thread j k hpc
    exact ⟨x, hold k x hx, hfree, hrun⟩
  · have hflag : t.monitorRunning = s.monitorRunning := by rw [ht]
    rw [hflag, hthread]
    exact hval.flag
  · intro j hj
    have hasking : t.asking = s.asking := by rw [ht]
    rw [hasking] at hj
    rw [hsctes, List.length_modify]
    exact hval.asking j hj

theorem step_inqClientAnswer (hs : Sound s) (hval : Valid s) {i : ℕ}
    {answer : Option Table.Actid} (hfits : Fits s (.inqClientAnswer i answer))
    (h : inqClientAnswer s i answer = some t) : Sound t ∧ Valid t := by
  unfold inqClientAnswer at h
  split at h
  · next hi =>
    obtain ⟨hs', hval'⟩ := sound_asking hs hval (l := s.asking.erase i) fun j hj =>
      hval.asking j (List.mem_of_mem_erase hj)
    have hlt := hval.asking i hi
    have hscte : s.sctes[i]? = some s.sctes[i] := List.getElem?_eq_getElem hlt
    cases answer with
    | none =>
      cases h
      exact ⟨hs', hval'⟩
    | some casUuid =>
      have hnone := hfits _ hscte
      dsimp only at h
      split at h
      · next c hfind =>
        obtain ⟨client, hc, hfree, -⟩ := findClient_spec hval' hfind
        cases h
        exact sound_share hs' hval' hscte hnone hc hfree rfl
      · next hfind =>
        cases h
        refine sound_newClient hs' hval' hscte hnone (fun c client hc hfree heq => ?_) rfl
        have hin : c ∈ s.table (probe casUuid) :=
          (hval.chain _ c).mpr ⟨client, hc, hfree, by rw [heq]⟩
        have hp := List.find?_eq_none.mp hfind c hin
        change ¬ ((s.clients[c]?).any fun client => decide (client.casUuid = casUuid)) = true at hp
        rw [hc] at hp
        simp [heq] at hp
  · cases h

/-- A handle to which no entry points, and that is not monitored, is freed. -/
theorem sound_clientFree (hs : Sound s) (hval : Valid s) (hc : s.clients[c]? = some client)
    (hfree : client.freed = false) (hrun : client.rundown = false) (hrefs : s.refs c = 0) :
    Sound (clientFree s c client) ∧ Valid (clientFree s c client) := by
  have hin : c ∈ s.table (probe client.casUuid) :=
    (hval.chain _ c).mpr ⟨client, hc, hfree, rfl⟩
  unfold clientFree
  rw [if_pos hin]
  set t : Monitors := { s.updClient c fun client => { client with freed := true } with
    table := Function.update s.table (probe client.casUuid)
      ((s.table (probe client.casUuid)).erase c) } with ht
  have hclients : t.clients = s.clients.modify c fun client => { client with freed := true } := rfl
  have hget : ∀ (k : ℕ) (y : ClientRep), t.clients[k]? = some y → ∃ x : ClientRep,
      s.clients[k]? = some x ∧ y = if c = k then { x with freed := true } else x :=
    fun k y hy => getElem?_upd_inv hy
  have halive : ∀ (k : ℕ) (y : ClientRep), t.clients[k]? = some y → y.freed = false →
      k ≠ c ∧ s.clients[k]? = some y := by
    intro k y hy hfr
    obtain ⟨x, hx, rfl⟩ := hget k y hy
    by_cases hk : c = k
    · rw [if_pos hk] at hfr
      cases hfr
    · rw [if_neg hk]
      exact ⟨Ne.symm hk, hx⟩
  have hother : ∀ (k : ℕ) (x : ClientRep), k ≠ c → s.clients[k]? = some x →
      t.clients[k]? = some x := by
    intro k x hk hx
    rw [hclients, getElem?_upd hx, if_neg (Ne.symm hk)]
  have hrundown : ∀ y ∈ t.clients, ∃ x ∈ s.clients, y.rundown = x.rundown ∧
      y.lastUpdate = x.lastUpdate ∧ (y.freed = true → y.rundown = false) := by
    intro y hy
    obtain ⟨k, hk⟩ := List.mem_iff_getElem?.mp hy
    obtain ⟨x, hx, rfl⟩ := hget k y hk
    refine ⟨x, List.mem_of_getElem? hx, ?_⟩
    split
    · next heq =>
      rw [← heq, hc, Option.some_inj] at hx
      exact ⟨rfl, rfl, fun _ => hx ▸ hrun⟩
    · exact ⟨rfl, rfl, hval.freed x (List.mem_of_getElem? hx)⟩
  refine ⟨⟨?_, ?_, ?_, ?_, hs.aged, hs.live, ?_⟩, ⟨?_, ?_, ?_, ?_, ?_, ?_, hval.flag, hval.asking⟩⟩
  · have hcount := countP_modify (p := ClientRep.rundown)
      (f := fun client : ClientRep => { client with freed := true }) hc
    rw [hclients]
    have hold := hs.count
    have hactive : t.activeMonitors = s.activeMonitors := rfl
    rw [hactive]
    simp only [hrun] at hcount
    omega
  · intro k y hy hfr
    exact hs.refcnt k y (halive k y hy hfr).2 hfr
  · intro k k' y y' hy hy' hfr hfr' heq
    exact hs.unique k k' y y' (halive k y hy hfr).2 (halive k' y' hy' hfr').2 hfr hfr' heq
  · intro k y hy
    obtain ⟨x, hx, rfl⟩ := hget k y hy
    have hold := hs.ended k x hx
    split <;> exact hold
  · intro y hy hrun'
    obtain ⟨x, hx, heq, -⟩ := hrundown y hy
    exact hs.running x hx (heq ▸ hrun')
  · intro j k
    have hchain : t.table j = if j = probe client.casUuid then
        (s.table (probe client.casUuid)).erase c else s.table j := Function.update_apply _ _ _ _
    rw [hchain]
    constructor
    · intro hmem
      have hkc : k ∈ s.table j ∧ k ≠ c := by
        split at hmem
        · next hj =>
          rw [(hval.nodup _).mem_erase_iff] at hmem
          exact ⟨hj ▸ hmem.2, hmem.1⟩
        · next hj =>
          refine ⟨hmem, ?_⟩
          rintro rfl
          obtain ⟨x, hx, -, hprobe⟩ := (hval.chain j k).mp hmem
          rw [hc, Option.some_inj] at hx
          exact hj (by rw [← hprobe, hx])
      obtain ⟨x, hx, hfr, hprobe⟩ := (hval.chain j k).mp hkc.1
      exact ⟨x, hother k x hkc.2 hx, hfr, hprobe⟩
    · rintro ⟨y, hy, hfr, hprobe⟩
      obtain ⟨hne, hx⟩ := halive k y hy hfr
      have hmem := (hval.chain j k).mpr ⟨y, hx, hfr, hprobe⟩
      split
      · next hj =>
        rw [(hval.nodup _).mem_erase_iff]
        exact ⟨hne, hj ▸ hmem⟩
      · exact hmem
  · intro j
    have hchain : t.table j = if j = probe client.casUuid then
        (s.table (probe client.casUuid)).erase c else s.table j := Function.update_apply _ _ _ _
    rw [hchain]
    split
    · exact (hval.nodup _).erase c
    · exact hval.nodup j
  · intro scte hmem k hk
    have hne : k ≠ c := by
      rintro rfl
      exact List.countP_eq_zero.mp hrefs scte hmem (decide_eq_true hk)
    obtain ⟨x, hx, hfr⟩ := hval.scte scte hmem k hk
    exact ⟨x, hother k x hne hx, hfr⟩
  · intro y hy
    obtain ⟨x, -, -, -, hfr⟩ := hrundown y hy
    exact hfr
  · intro y hy
    obtain ⟨x, hx, -, heq, -⟩ := hrundown y hy
    rw [heq]
    exact hval.clock x hx
  · intro j k hpc
    obtain ⟨x, hx, hfr, hrun'⟩ := hval.thread j k hpc
    have hne : k ≠ c := by
      rintro rfl
      rw [hc, Option.some_inj] at hx
      rw [hx, hrun'] at hrun
      cases hrun
    exact ⟨x, hother k x hne hx, hfr, hrun'⟩

theorem step_releaseScte (hs : Sound s) (hval : Valid s) {i : ℕ} (h : releaseScte s i = some t) :
    Sound t ∧ Valid t := by
  obtain ⟨scte, hscte, h⟩ := Option.bind_eq_some_iff.mp h
  split at h
  · cases h
  split at h
  · next hnone =>
    cases h
    have hrefs : ∀ k, Monitors.refs { s with sctes := s.sctes.modify i fun _ =>
        { client := none, live := false } } k = s.refs k := by
      intro k
      have h := refs_modify (k := k) (t := { s with sctes := s.sctes.modify i fun _ =>
        { client := none, live := false } }) (g := fun _ => { client := none, live := false }) hscte
        rfl
      rw [hnone] at h
      simpa using h
    refine ⟨⟨hs.count, fun k x hx hfree => ?_, hs.unique, hs.ended, hs.aged, hs.live, hs.running⟩,
      ⟨hval.chain, hval.nodup, fun y hy k hk => ?_, hval.freed, hval.clock, hval.thread, hval.flag,
        fun j hj => ?_⟩⟩
    · rw [hrefs k]
      exact hs.refcnt k x hx hfree
    · rcases sctes_modify hscte hy with rfl | hold
      · cases hk
      · exact hval.scte y hold k hk
    · rw [List.length_modify]
      exact hval.asking j hj
  · next c hsome =>
    obtain ⟨client, hc, h⟩ := Option.bind_eq_some_iff.mp h
    obtain ⟨client', hc', hfree⟩ := hval.scte scte (List.mem_of_getElem? hscte) c hsome
    obtain rfl : client = client' := Option.some_inj.mp (hc.symm.trans hc')
    rw [touch_of_not_freed hfree] at h
    dsimp only at h
    split at h
    · cases h
      exact ⟨hs, hval⟩
    next hrun =>
    rw [Bool.not_eq_true] at hrun
    have hmem := List.mem_of_getElem? hc
    set u : Monitors := { s.updClient c fun client => { client with refcnt := client.refcnt - 1 } with
      sctes := s.sctes.modify i fun _ => { client := none, live := false } } with hu
    have hrefs : ∀ k, u.refs k + (if c = k then 1 else 0) = s.refs k := by
      intro k
      have h := refs_modify (k := k) (t := u) (g := fun _ => { client := none, live := false }) hscte
        rfl
      rw [hsome] at h
      simpa using h
    have hold := hs.refcnt c client hc hfree
    have hself := hrefs c
    rw [if_pos rfl] at hself
    have hsound : Sound u ∧ Valid u := by
      refine sound_update_refs hs hval hc rfl rfl (fun _ => ⟨rfl, rfl⟩) (fun k x hx hfr => ?_)
        (fun y hy k hk => ?_) (fun j hj => ?_) (hval.freed client hmem) (hval.clock client hmem) rfl
        (hs.ended c client hc) (fun _ _ => rfl) hs.aged hs.live (fun hor => ?_)
        (fun j k hpc => ?_) hval.flag
      · have hk := hrefs k
        by_cases heq : c = k
        · rw [← heq, hc, Option.some_inj] at hx
          rw [if_pos heq, ← hx]
          rw [if_pos heq, ← heq] at hk
          change client.refcnt - 1 + s.refs k = client.refcnt + u.refs k
          rw [← heq]
          omega
        · rw [if_neg heq, Nat.add_zero] at hk
          rw [if_neg heq, hk]
      · rcases sctes_modify hscte hy with rfl | hy
        · cases hk
        · exact hval.scte y hy k hk
      · change j < (s.sctes.modify i _).length
        rw [List.length_modify]
        exact hval.asking j hj
      · rcases hor with h | h
        · exact (hs.running client hmem h).1
        · exact h
      · obtain ⟨x, hx, hfree', hrun'⟩ := hval.thread j k hpc
        refine ⟨_, getElem?_upd hx, ?_⟩
        split <;> exact ⟨hfree', hrun'⟩
    split at h
    · next hlast =>
      cases h
      have hc' : u.clients[c]? = some { client with refcnt := client.refcnt - 1 } := by
        have := getElem?_upd (c := c) (f := fun client : ClientRep =>
          { client with refcnt := client.refcnt - 1 }) hc
        rw [if_pos rfl] at this
        exact this
      have hzero : u.refs c = 0 := by omega
      have hfreed := sound_clientFree hsound.1 hsound.2 hc' hfree hrun hzero
      exact hfreed
    · cases h
      exact hsound

/-! ### Runs -/

theorem step_sound {ev : Event} (hs : Sound s) (hval : Valid s) (hfits : Fits s ev)
    (h : step s ev = some t) : Sound t ∧ Valid t := by
  cases ev with
  | mon c clock => exact step_networkMon hs hval hfits h
  | stopMon c => exact step_networkStopMon hs hval hfits h
  | indy casUuid clock =>
    cases h
    exact step_convcIndy hs hval hfits
  | newScte =>
    cases h
    exact step_newScte hs hval
  | inqClient i => exact step_inqClient hs hval h
  | inqClientAnswer i answer => exact step_inqClientAnswer hs hval hfits h
  | releaseScte i => exact step_releaseScte hs hval h
  | monitorPass clock => exact step_monitorPass hs hval h
  | rundownDone clock => exact step_rundownDone hs hval h

theorem sound_init : Sound ({} : Monitors) where
  count := rfl
  refcnt _ _ hc := nomatch hc
  unique _ _ _ _ hc := nomatch hc
  ended _ _ hc := nomatch hc
  aged _ hmem := (List.not_mem_nil hmem).elim
  live := rfl
  running _ hmem := (List.not_mem_nil hmem).elim

theorem valid_init : Valid ({} : Monitors) where
  chain _ _ := ⟨fun hmem => (List.not_mem_nil hmem).elim, fun ⟨_, hc, _⟩ => nomatch hc⟩
  nodup _ := List.nodup_nil
  scte _ hmem := (List.not_mem_nil hmem).elim
  freed _ hmem := (List.not_mem_nil hmem).elim
  clock _ hmem := (List.not_mem_nil hmem).elim
  thread _ _ hpc := nomatch hpc
  flag := ⟨fun h => (nomatch h), fun h => absurd rfl h⟩
  asking _ hmem := (List.not_mem_nil hmem).elim

/-- In a run whose events all fit, clients are watched as they should be. -/
theorem watched_of_along {evs : List Event} (hfits : Along step Fits {} evs)
    (h : exec step {} evs = some t) : Sound t :=
  (exec_invariant (I := fun s => Sound s ∧ Valid s)
    (fun _ _ _ hI hP hstep => step_sound hI.1 hI.2 hP hstep) ⟨sound_init, valid_init⟩ hfits h).1

instance Fits.decidable (s : Monitors) : ∀ ev, Decidable (Fits s ev)
  | .mon c clock => inferInstanceAs (Decidable
      ((∀ client ∈ s.clients[c]?, client.freed = false) ∧
        clock.toNat + liveTimeout.toNat < 2 ^ 32))
  | .stopMon c => inferInstanceAs (Decidable
      ((∀ client ∈ s.clients[c]?, client.freed = false) ∧ s.runningDown c = false))
  | .indy _ clock => inferInstanceAs (Decidable (clock.toNat + liveTimeout.toNat < 2 ^ 32))
  | .inqClientAnswer i (some _) =>
    inferInstanceAs (Decidable (∀ scte ∈ s.sctes[i]?, scte.client = none))
  | .inqClientAnswer _ none => isTrue trivial
  | .newScte => isTrue trivial
  | .inqClient _ => isTrue trivial
  | .releaseScte _ => isTrue trivial
  | .monitorPass _ => isTrue trivial
  | .rundownDone _ => isTrue trivial

/-- A client is registered, is not heard from, and its rundown routine is called. -/
def lostClient : List Event :=
  [.newScte, .inqClient 0, .inqClientAnswer 0 (some ⟨1, 2, 3, 4⟩), .mon 0 10, .monitorPass 900]

theorem watched_of_along_lostClient :
    ∃ t, exec step {} (lostClient ++ [.rundownDone 905, .releaseScte 0]) = some t ∧ Sound t := by
  have hrun : (exec step {} (lostClient ++ [.rundownDone 905, .releaseScte 0])).isSome = true := by
    decide +kernel
  obtain ⟨t, ht⟩ := Option.isSome_iff_exists.mp hrun
  exact ⟨t, ht, watched_of_along (by decide +kernel) ht⟩

/-- The registration is stopped while the client is being run down. -/
theorem not_watched :
    ¬ ∀ (evs : List Event) (t : Monitors), exec step {} evs = some t →
      t.activeMonitors = t.clients.countP ClientRep.rundown := by
  intro h
  have hrun : (exec step {} (lostClient ++ [.stopMon 0, .rundownDone 905])).map (fun t =>
      (t.activeMonitors, t.clients.countP ClientRep.rundown)) = some (-1, 0) := by decide +kernel
  obtain ⟨t, ht, heq⟩ := Option.map_eq_some_iff.mp hrun
  obtain ⟨hactive, hcount⟩ := Prod.mk.inj heq
  have hbad := h _ t ht
  rw [hactive, hcount] at hbad
  exact absurd hbad (by decide)

end Live

end Dg
