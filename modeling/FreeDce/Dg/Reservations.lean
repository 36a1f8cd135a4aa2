/-
Packet reservations (dgpkt.c).

Packets come from one pool.  A call that may block holding packets first reserves
some; the pool grants a reservation if there are enough packets for all
reservations, or from a few that were set aside for server calls.  Callback and
who-are-you handles use the reservation of the call they belong to.

The steps are those between which the pool lock is free: a request up to its
grant or its wait, the return from the wait, the update of the original call
after a callback's request, a cancellation, the allocation and the freeing of a
packet.

* `accounted_step` — what one step does to the accounts, for each routine;
* `accounted_iff` — in every run the accounts balance in every state if and only
  if no request that waited is granted free packets after the reservation of its
  call has changed, and none is granted to a callback handle (`not_accounted`).
-/
import FreeDce.Lib.Runs

namespace Dg

open Runs

/-! ### The pool -/

/-- The sizes that are fixed at compile time. -/
structure PoolCfg where
  /-- `RPC_C_DG_MAX_NUM_PKTS_IN_FRAG` -/
  maxNumPktsInFrag : ℕ := 2
  /-- `RPC_C_DG_PKT_INIT_SERVER_RESVS` -/
  initServerResvs : ℕ := 5
  /-- `RPC_C_DG_PKT_MAX` -/
  pktMax : ℕ := 100000
  frag_pos : 0 < maxNumPktsInFrag := by decide

/-- What the routines ask of a call handle.  The handle that a callback handle
belongs to is `original`, and `isWayBinding` is the reservation of the call on
whose behalf a who-are-you call is made. -/
structure CallHandle (ι : Type) where
  isServer : Bool := false
  isCbk : Bool := false
  original : ι
  isWayBinding : ℕ := 0

/-- A client call on a who-are-you binding. -/
def CallHandle.isWay {ι : Type} (h : CallHandle ι) : Bool :=
  h.isServer = false ∧ h.isWayBinding ≠ 0

/-- A request that waits: `nreq`, `how_many`, and the reservation that the call had when
`how_many` was computed. -/
structure Request where
  nreq : ℕ
  howMany : ℕ
  seen : ℕ

/-- The pool, the reservations of the calls, the requests that wait, and the callback
handles whose original has not been updated yet. -/
structure PktPool (ι : Type) where
  reservations : ℕ
  srvResvAvail : ℕ
  freeCount : ℕ
  pktCount : ℕ
  freeList : List ℕ
  isOnFreeList : ℕ → Bool
  nResvs : ι → ℕ
  waiting : ι → Option Request
  pending : List ι

section Steps

variable {ι : Type} [DecidableEq ι] (cfg : PoolCfg) (handle : ι → CallHandle ι)

/-- `rpc__dg_pkt_pool_init`, before the first packets are allocated. -/
def pktPoolInit : PktPool ι where
  reservations := cfg.maxNumPktsInFrag + (cfg.maxNumPktsInFrag + 1) * cfg.initServerResvs
  srvResvAvail := cfg.initServerResvs
  freeCount := 0
  pktCount := cfg.pktMax
  freeList := []
  isOnFreeList _ := false
  nResvs _ := 0
  waiting _ := none
  pending := []

/-- `RESERVATION_AVAILABLE`. -/
def reservationAvailable (s : PktPool ι) (n : ℕ) : Bool :=
  s.reservations + n ≤ s.freeCount + s.pktCount

/-- `SRV_RESERVATION_AVAILABLE`, with the other tests for a server's first reservation. -/
def srvReservationAvailable (s : PktPool ι) (c : ι) (howMany : ℕ) : Bool :=
  s.nResvs c = 0 ∧ (handle c).isServer ∧ 0 < s.srvResvAvail ∧
    howMany ≤ cfg.maxNumPktsInFrag + 1

/-- The loop that reclaims server reservations. -/
def reclaim : ℕ → PktPool ι → PktPool ι
  | 0, s => s
  | n + 1, s =>
    if reservationAvailable s (cfg.maxNumPktsInFrag + 1) ∧ s.srvResvAvail < cfg.initServerResvs then
      reclaim n { s with
        reservations := s.reservations + (cfg.maxNumPktsInFrag + 1)
        srvResvAvail := s.srvResvAvail + 1 }
    else s

/-- A callback handle's new reservation still has to be copied to its original. -/
def notePending (s : PktPool ι) (c : ι) : PktPool ι :=
  if (handle c).isCbk then { s with pending := c :: s.pending } else s

/-- One pass through the loop of `rpc__dg_pkt_adjust_reservation`. -/
def tryReserve (s : PktPool ι) (c : ι) (req : Request) (block : Bool) : PktPool ι :=
  if reservationAvailable s req.howMany then
    notePending handle
      { s with
        reservations := s.reservations + req.howMany
        nResvs := Function.update s.nResvs c req.nreq
        waiting := if block then Function.update s.waiting c none else s.waiting } c
  else if srvReservationAvailable cfg handle s c req.howMany then
    notePending handle
      { s with
        srvResvAvail := s.srvResvAvail - 1
        nResvs := Function.update s.nResvs c cfg.maxNumPktsInFrag
        waiting := if block then Function.update s.waiting c none else s.waiting } c
  else if block then { s with waiting := Function.update s.waiting c (some req) }
  else s

/-- The request for `nreq` packets, given what the call holds. -/
def requestFor (held nreq : ℕ) : Request where
  nreq := nreq
  howMany := if held = 0 then nreq - held + 1 else nreq - held
  seen := held

/-- What a callback handle inherits before anything else is done. -/
def inherit (s : PktPool ι) (c : ι) : PktPool ι :=
  if (handle c).isCbk then
    { s with nResvs := Function.update s.nResvs c (s.nResvs (handle c).original) }
  else s

/-- `rpc__dg_pkt_adjust_reservation`, up to its return or its wait. -/
def adjustReservation (s : PktPool ι) (c : ι) (nreq : ℕ) (block : Bool) : PktPool ι :=
  if (handle c).isCbk = false ∧ (handle c).isWay then
    { s with nResvs := Function.update s.nResvs c (handle c).isWayBinding }
  else
    let s := inherit handle s c
    if nreq ≤ s.nResvs c then s
    else tryReserve cfg handle s c (requestFor (s.nResvs c) nreq) block

/-- `rpc__dg_pkt_cancel_reservation`. -/
def cancelReservation (s : PktPool ι) (c : ι) : PktPool ι :=
  if s.nResvs c = 0 then s
  else if (handle c).isCbk ∨ (handle c).isWay then
    { s with nResvs := Function.update s.nResvs c 0 }
  else
    reclaim cfg (cfg.initServerResvs - s.srvResvAvail)
      { s with
        reservations := s.reservations - (s.nResvs c + 1)
        nResvs := Function.update s.nResvs c 0 }

/-- `pkt_alloc`; `pkt` is where a new packet would be put. -/
def pktAlloc (s : PktPool ι) (pkt : ℕ) : PktPool ι :=
  match s.freeList with
  | p :: rest =>
    { s with
      freeList := rest
      freeCount := s.freeCount - 1
      isOnFreeList := Function.update s.isOnFreeList p false }
  | [] =>
    if s.pktCount = 0 then s
    else
      { s with
        pktCount := s.pktCount - 1
        isOnFreeList := Function.update s.isOnFreeList pkt false }

/-- `pkt_free`. -/
def pktFree (s : PktPool ι) (pkt : ℕ) : PktPool ι :=
  if s.isOnFreeList pkt then s
  else
    reclaim cfg (cfg.initServerResvs - s.srvResvAvail)
      { s with
        freeList := s.freeList ++ [pkt]
        isOnFreeList := Function.update s.isOnFreeList pkt true
        freeCount := s.freeCount + 1 }

/-- The steps of all threads. -/
inductive PoolEvent (ι : Type)
  /-- The call's thread, or the listener for the same call (which never blocks). -/
  | adjust (c : ι) (nreq : ℕ) (block : Bool)
  /-- `rpc__dg_call_wait` returns to a request that waits, with or without an error. -/
  | wake (c : ι) (ok : Bool)
  /-- The original of a callback handle is given what the handle was granted. -/
  | update (c : ι)
  | cancel (c : ι)
  | alloc (pkt : ℕ)
  | free (pkt : ℕ)

/-- One step.  A call has one thread, so at most one of its requests waits. -/
def poolStep (s : PktPool ι) : PoolEvent ι → Option (PktPool ι)
  | .adjust c nreq block =>
    if block = true ∧ (s.waiting c).isSome then none
    else some (adjustReservation cfg handle s c nreq block)
  | .wake c ok =>
    match s.waiting c with
    | none => none
    | some req =>
      if ok then some (tryReserve cfg handle s c req true)
      else some { s with waiting := Function.update s.waiting c none }
  | .update c =>
    if c ∈ s.pending then
      some { s with
        pending := s.pending.erase c
        nResvs := Function.update s.nResvs (handle c).original (s.nResvs c) }
    else none
  | .cancel c => some (cancelReservation cfg handle s c)
  | .alloc pkt => some (pktAlloc s pkt)
  | .free pkt => some (pktFree cfg s pkt)

/-! ### The accounts -/

/-- What a call with the given reservation of its own takes from the pool: a packet
more, for the stub. -/
def share (c : ι) (n : ℕ) : ℕ :=
  if (handle c).isCbk ∨ (handle c).isWay then 0 else if n = 0 then 0 else n + 1

variable [Fintype ι]

/-- The accounts of the pool, and what follows for cancellations. -/
structure Accounted (s : PktPool ι) : Prop where
  balance : s.reservations = cfg.maxNumPktsInFrag
    + (cfg.maxNumPktsInFrag + 1) * s.srvResvAvail + ∑ c, share handle c (s.nResvs c)
  srv_le : s.srvResvAvail ≤ cfg.initServerResvs
  freeCount_eq : s.freeCount = s.freeList.length
  nodup : s.freeList.Nodup
  cancel_le : ∀ c, share handle c (s.nResvs c) ≤ s.reservations

/-- A request of the call would be granted. -/
def Grants (s : PktPool ι) (c : ι) (howMany : ℕ) : Prop :=
  reservationAvailable s howMany = true ∨ srvReservationAvailable cfg handle s c howMany = true

omit [Fintype ι] [DecidableEq ι] in
instance (s : PktPool ι) (c : ι) (howMany : ℕ) : Decidable (Grants cfg handle s c howMany) :=
  inferInstanceAs (Decidable (_ ∨ _))

/-- No request that waited is granted free packets after the reservation of its call has
changed, and none is granted to a callback handle. -/
def GrantsInTime (s : PktPool ι) : PoolEvent ι → Prop
  | .adjust c nreq _ => (handle c).isCbk = true → s.nResvs (handle c).original < nreq →
      ¬ Grants cfg handle (inherit handle s c) c
        (requestFor (s.nResvs (handle c).original) nreq).howMany
  | .wake c true => ∀ req ∈ s.waiting c,
      ((handle c).isCbk = true → ¬ Grants cfg handle s c req.howMany) ∧
      ((handle c).isCbk = false → reservationAvailable s req.howMany = true →
        s.nResvs c = req.seen)
  | _ => True

/-! ### One step -/

variable {cfg handle} {s : PktPool ι}

/-- The sum of the shares when one call's reservation changes. -/
theorem sum_share_update (handle : ι → CallHandle ι) (n : ι → ℕ) (c : ι) (v : ℕ) :
    (∑ c', share handle c' (Function.update n c v c')) + share handle c (n c)
      = (∑ c', share handle c' (n c')) + share handle c v := by
  have hold := Finset.add_sum_erase Finset.univ (fun c' => share handle c' (n c'))
    (Finset.mem_univ c)
  have hnew := Finset.add_sum_erase Finset.univ
    (fun c' => share handle c' (Function.update n c v c')) (Finset.mem_univ c)
  have hrest : ∑ c' ∈ Finset.univ.erase c, share handle c' (Function.update n c v c')
      = ∑ c' ∈ Finset.univ.erase c, share handle c' (n c') :=
    Finset.sum_congr rfl fun c' hc' => by
      rw [Function.update_of_ne (Finset.ne_of_mem_erase hc')]
  rw [hrest, Function.update_self] at hnew
  omega

omit [DecidableEq ι] in
/-- No call takes more than what is reserved. -/
theorem share_le_of_balance (hbal : s.reservations = cfg.maxNumPktsInFrag
    + (cfg.maxNumPktsInFrag + 1) * s.srvResvAvail + ∑ c, share handle c (s.nResvs c)) (c : ι) :
    share handle c (s.nResvs c) ≤ s.reservations := by
  have hle := Finset.single_le_sum (f := fun c => share handle c (s.nResvs c))
    (fun _ _ => Nat.zero_le _) (Finset.mem_univ c)
  omega

omit [Fintype ι] [DecidableEq ι] in
/-- The loop takes some number of server reservations back, and no more than there were. -/
theorem reclaim_spec : ∀ (n : ℕ) (s : PktPool ι), s.srvResvAvail ≤ cfg.initServerResvs →
    ∃ k, reclaim cfg n s = { s with
      reservations := s.reservations + (cfg.maxNumPktsInFrag + 1) * k
      srvResvAvail := s.srvResvAvail + k } ∧ s.srvResvAvail + k ≤ cfg.initServerResvs := by
  intro n
  induction n with
  | zero => exact fun s hle => ⟨0, rfl, hle⟩
  | succ n ih =>
    intro s hle
    rw [reclaim]
    split_ifs with hcond
    · obtain ⟨k, hk, hle'⟩ := ih { s with
        reservations := s.reservations + (cfg.maxNumPktsInFrag + 1)
        srvResvAvail := s.srvResvAvail + 1 } hcond.2
      refine ⟨k + 1, ?_, ?_⟩
      · rw [hk]
        simp only [Nat.mul_add, Nat.mul_one]
        congr 1 <;> omega
      · simp only at hle'
        omega
    · exact ⟨0, rfl, hle⟩

/-- What holds besides the accounts as long as all grants are in time. -/
structure PoolInv (cfg : PoolCfg) (handle : ι → CallHandle ι) (s : PktPool ι) : Prop where
  accounted : Accounted cfg handle s
  flags : ∀ p, s.isOnFreeList p = true ↔ p ∈ s.freeList
  requests : ∀ c req, s.waiting c = some req →
    ((handle c).isCbk = false → (handle c).isWay = false) ∧
    req = requestFor req.seen req.nreq ∧ req.seen < req.nreq
  pending_nil : s.pending = []

omit [Fintype ι] [DecidableEq ι] in
/-- The request is for just what is missing. -/
theorem share_add_howMany {c : ι} {held nreq : ℕ} (hlt : held < nreq)
    (hcbk : (handle c).isCbk = false) (hway : (handle c).isWay = false) :
    share handle c held + (requestFor held nreq).howMany = share handle c nreq := by
  have hne : nreq ≠ 0 := by omega
  simp only [share, requestFor, hcbk, hway, hne, Bool.false_eq_true, or_self, if_false]
  split_ifs <;> omega

omit [Fintype ι] [DecidableEq ι] in
theorem howMany_pos {held nreq : ℕ} (hlt : held < nreq) : 0 < (requestFor held nreq).howMany := by
  simp only [requestFor]
  split_ifs <;> omega

/-- The accounts after a change of one call's reservation, the reserved packets and the
server reservations. -/
theorem accounted_of_change {s' : PktPool ι} {c : ι} {v : ℕ} (h : Accounted cfg handle s)
    (hn : s'.nResvs = Function.update s.nResvs c v) (hsrv : s'.srvResvAvail ≤ cfg.initServerResvs)
    (hcount : s'.freeCount = s'.freeList.length) (hnodup : s'.freeList.Nodup) :
    Accounted cfg handle s' ↔
      s'.reservations + (cfg.maxNumPktsInFrag + 1) * s.srvResvAvail + share handle c (s.nResvs c)
        = s.reservations + (cfg.maxNumPktsInFrag + 1) * s'.srvResvAvail + share handle c v := by
  have hsum := sum_share_update handle s.nResvs c v
  have hbal := h.balance
  rw [← hn] at hsum
  constructor
  · intro h'
    have hbal' := h'.balance
    omega
  · intro heq
    have hbal' : s'.reservations = cfg.maxNumPktsInFrag
        + (cfg.maxNumPktsInFrag + 1) * s'.srvResvAvail + ∑ c, share handle c (s'.nResvs c) := by
      omega
    exact ⟨hbal', hsrv, hcount, hnodup, share_le_of_balance hbal'⟩

omit [Fintype ι] [DecidableEq ι] in
theorem share_inj {c : ι} {m n : ℕ} (hcbk : (handle c).isCbk = false)
    (hway : (handle c).isWay = false) (h : share handle c m = share handle c n) : m = n := by
  simp only [share, hcbk, hway, Bool.false_eq_true, or_self, if_false] at h
  split_ifs at h <;> omega

omit [Fintype ι] [DecidableEq ι] in
theorem share_of_cbk {c : ι} (hcbk : (handle c).isCbk = true) (n : ℕ) : share handle c n = 0 := by
  rw [share, if_pos (.inl hcbk)]

omit [Fintype ι] in
/-- What waits after one pass through the loop is what waited before, or this request. -/
theorem tryReserve_waiting {c : ι} {req : Request} {block : Bool} {c' : ι} {req' : Request}
    (hw : (tryReserve cfg handle s c req block).waiting c' = some req') :
    s.waiting c' = some req' ∨ (c' = c ∧ req' = req) := by
  have hnote : ∀ t : PktPool ι, (notePending handle t c).waiting = t.waiting := by
    intro t
    unfold notePending
    split_ifs <;> rfl
  by_cases hc : c' = c
  · subst hc
    unfold tryReserve at hw
    split_ifs at hw with h1 h2 h3 <;> simp_all
  · unfold tryReserve at hw
    split_ifs at hw with h1 h2 h3 <;> simp_all

omit [Fintype ι] in
theorem tryReserve_free (c : ι) (req : Request) (block : Bool) :
    (tryReserve cfg handle s c req block).freeList = s.freeList ∧
    (tryReserve cfg handle s c req block).freeCount = s.freeCount ∧
    (tryReserve cfg handle s c req block).isOnFreeList = s.isOnFreeList := by
  unfold tryReserve notePending
  split_ifs <;> exact ⟨rfl, rfl, rfl⟩

/-- One pass through the loop of a request: it is granted in time. -/
def InTime (cfg : PoolCfg) (handle : ι → CallHandle ι) (s : PktPool ι) (c : ι) (req : Request) :
    Prop :=
  ((handle c).isCbk = true → ¬ Grants cfg handle s c req.howMany) ∧
    ((handle c).isCbk = false → reservationAvailable s req.howMany = true → s.nResvs c = req.seen)

/-- **One pass.**  The accounts balance afterwards if and only if the grant is in time. -/
theorem tryReserve_accounted {c : ι} {req : Request} {block : Bool}
    (h : Accounted cfg handle s) (hway : (handle c).isCbk = false → (handle c).isWay = false)
    (hreq : req = requestFor req.seen req.nreq) (hlt : req.seen < req.nreq) :
    Accounted cfg handle (tryReserve cfg handle s c req block) ↔ InTime cfg handle s c req := by
  obtain ⟨hlist, hcount, -⟩ : (tryReserve cfg handle s c req block).freeList = s.freeList ∧
      (tryReserve cfg handle s c req block).freeCount = s.freeCount ∧ _ :=
    tryReserve_free c req block
  have hfree : (tryReserve cfg handle s c req block).freeCount
      = (tryReserve cfg handle s c req block).freeList.length := by
    rw [hcount, hlist, h.freeCount_eq]
  have hnodup : (tryReserve cfg handle s c req block).freeList.Nodup := by
    rw [hlist]
    exact h.nodup
  have hpos : 0 < req.howMany := by
    rw [hreq]
    exact howMany_pos hlt
  have hn : ∀ t : PktPool ι, (notePending handle t c).nResvs = t.nResvs ∧
      (notePending handle t c).reservations = t.reservations ∧
      (notePending handle t c).srvResvAvail = t.srvResvAvail := by
    intro t
    unfold notePending
    split_ifs <;> exact ⟨rfl, rfl, rfl⟩
  by_cases havail : reservationAvailable s req.howMany = true
  · -- from the free packets
    have heq : tryReserve cfg handle s c req block = _ := if_pos havail
    have hnew : (tryReserve cfg handle s c req block).nResvs = Function.update s.nResvs c req.nreq ∧
        (tryReserve cfg handle s c req block).reservations = s.reservations + req.howMany ∧
        (tryReserve cfg handle s c req block).srvResvAvail = s.srvResvAvail := by
      rw [heq]
      exact hn _
    rw [accounted_of_change h hnew.1 (by rw [hnew.2.2]; exact h.srv_le) hfree hnodup, hnew.2.1,
      hnew.2.2]
    rcases hcbk : (handle c).isCbk with _ | _
    · have hmiss := share_add_howMany hlt hcbk (hway hcbk)
      rw [← hreq] at hmiss
      constructor
      · intro hbal
        refine ⟨fun hc => by rw [hcbk] at hc; simp at hc, fun _ _ => ?_⟩
        exact share_inj hcbk (hway hcbk) (by omega)
      · intro htime
        rw [htime.2 hcbk havail]
        omega
    · rw [share_of_cbk hcbk, share_of_cbk hcbk]
      refine iff_of_false (by omega) fun htime => ?_
      exact htime.1 hcbk (.inl havail)
  · have hno : InTime cfg handle s c req ↔
        ((handle c).isCbk = true → ¬ srvReservationAvailable cfg handle s c req.howMany = true) := by
      simp [InTime, Grants, havail]
    rw [hno]
    by_cases hsrv : srvReservationAvailable cfg handle s c req.howMany = true
    · -- from the packets set aside for servers
      have heq : tryReserve cfg handle s c req block = _ := (if_neg havail).trans (if_pos hsrv)
      have hnew : (tryReserve cfg handle s c req block).nResvs
            = Function.update s.nResvs c cfg.maxNumPktsInFrag ∧
          (tryReserve cfg handle s c req block).reservations = s.reservations ∧
          (tryReserve cfg handle s c req block).srvResvAvail = s.srvResvAvail - 1 := by
        rw [heq]
        exact hn _
      have hfirst : s.nResvs c = 0 ∧ 0 < s.srvResvAvail := by
        simp only [srvReservationAvailable, decide_eq_true_eq] at hsrv
        exact ⟨hsrv.1, hsrv.2.2.1⟩
      obtain ⟨k, hk⟩ : ∃ k, s.srvResvAvail = k + 1 := ⟨s.srvResvAvail - 1, by omega⟩
      have hle := h.srv_le
      rw [accounted_of_change h hnew.1 (by rw [hnew.2.2]; omega) hfree hnodup, hnew.2.1, hnew.2.2,
        hk, Nat.add_sub_cancel, Nat.mul_add, Nat.mul_one, hfirst.1]
      rcases hcbk : (handle c).isCbk with _ | _
      · have hM := cfg.frag_pos
        have hone : share handle c 0 = 0 := by simp [share]
        have hall : share handle c cfg.maxNumPktsInFrag = cfg.maxNumPktsInFrag + 1 := by
          have hne : cfg.maxNumPktsInFrag ≠ 0 := by omega
          simp [share, hcbk, hway hcbk, hne]
        rw [hone, hall]
        exact iff_of_true (by omega) fun hc => by simp at hc
      · rw [share_of_cbk hcbk, share_of_cbk hcbk]
        exact iff_of_false (by omega) fun htime => htime rfl hsrv
    · -- not granted
      have hsame : (tryReserve cfg handle s c req block).nResvs = s.nResvs ∧
          (tryReserve cfg handle s c req block).reservations = s.reservations ∧
          (tryReserve cfg handle s c req block).srvResvAvail = s.srvResvAvail := by
        rw [tryReserve, if_neg havail, if_neg hsrv]
        split_ifs <;> exact ⟨rfl, rfl, rfl⟩
      refine iff_of_true ⟨?_, ?_, hfree, hnodup, ?_⟩ fun _ => hsrv
      · rw [hsame.1, hsame.2.1, hsame.2.2]
        exact h.balance
      · rw [hsame.2.2]
        exact h.srv_le
      · rw [hsame.1, hsame.2.1]
        exact h.cancel_le

omit [Fintype ι] in
theorem tryReserve_pending {c : ι} {req : Request} {block : Bool}
    (htime : InTime cfg handle s c req) :
    (tryReserve cfg handle s c req block).pending = s.pending := by
  have hnote : ∀ t : PktPool ι, Grants cfg handle s c req.howMany →
      (notePending handle t c).pending = t.pending := by
    intro t hgrant
    rw [notePending, if_neg fun hcbk => htime.1 hcbk hgrant]
  by_cases havail : reservationAvailable s req.howMany = true
  · rw [tryReserve, if_pos havail, hnote _ (.inl havail)]
  · by_cases hsrv : srvReservationAvailable cfg handle s c req.howMany = true
    · rw [tryReserve, if_neg havail, if_pos hsrv, hnote _ (.inr hsrv)]
    · rw [tryReserve, if_neg havail, if_neg hsrv]
      split_ifs <;> rfl

theorem PoolInv.tryReserve {c : ι} {req : Request} {block : Bool} (h : PoolInv cfg handle s)
    (hway : (handle c).isCbk = false → (handle c).isWay = false)
    (hreq : req = requestFor req.seen req.nreq) (hlt : req.seen < req.nreq)
    (htime : InTime cfg handle s c req) :
    PoolInv cfg handle (Dg.tryReserve cfg handle s c req block) := by
  obtain ⟨hlist, -, hflags⟩ : (Dg.tryReserve cfg handle s c req block).freeList = s.freeList ∧ _ ∧
      (Dg.tryReserve cfg handle s c req block).isOnFreeList = s.isOnFreeList :=
    tryReserve_free c req block
  refine ⟨(tryReserve_accounted h.accounted hway hreq hlt).mpr htime, ?_, ?_, ?_⟩
  · rw [hlist, hflags]
    exact h.flags
  · intro c' req' hw
    rcases tryReserve_waiting hw with hold | ⟨rfl, rfl⟩
    · exact h.requests c' req' hold
    · exact ⟨hway, hreq, hlt⟩
  · rw [tryReserve_pending htime]
    exact h.pending_nil

/-- A change of what a callback or who-are-you handle is said to hold costs nothing. -/
theorem PoolInv.setFree {c : ι} {v : ℕ} (h : PoolInv cfg handle s)
    (hfree : (handle c).isCbk = true ∨ (handle c).isWay = true) :
    PoolInv cfg handle { s with nResvs := Function.update s.nResvs c v } := by
  have hzero : ∀ n, share handle c n = 0 := fun n => if_pos hfree
  refine ⟨?_, h.flags, h.requests, h.pending_nil⟩
  refine Iff.mpr (accounted_of_change h.accounted rfl h.accounted.srv_le
    h.accounted.freeCount_eq h.accounted.nodup) ?_
  rw [hzero, hzero]

theorem PoolInv.inherit (h : PoolInv cfg handle s) (c : ι) :
    PoolInv cfg handle (Dg.inherit handle s c) := by
  unfold Dg.inherit
  split_ifs with hcbk
  · exact h.setFree (.inl hcbk)
  · exact h

omit [DecidableEq ι] in
/-- Taking server reservations back keeps the accounts. -/
theorem PoolInv.reclaim (h : PoolInv cfg handle s) (n : ℕ) :
    PoolInv cfg handle (Dg.reclaim cfg n s) := by
  obtain ⟨k, hk, hle⟩ := reclaim_spec n s h.accounted.srv_le
  have hbal := h.accounted.balance
  rw [hk]
  refine ⟨⟨?_, hle, h.accounted.freeCount_eq, h.accounted.nodup, fun c => ?_⟩, h.flags, h.requests,
    h.pending_nil⟩
  · simp only [Nat.mul_add]
    omega
  · have := h.accounted.cancel_le c
    simp only
    omega

theorem PoolInv.cancel (h : PoolInv cfg handle s) (c : ι) :
    PoolInv cfg handle (cancelReservation cfg handle s c) := by
  unfold cancelReservation
  split_ifs with h0 hfree
  · exact h
  · exact h.setFree hfree
  · apply PoolInv.reclaim
    have hshare : share handle c (s.nResvs c) = s.nResvs c + 1 := by
      rw [share, if_neg hfree, if_neg h0]
    have hzero : share handle c 0 = 0 := by
      rw [share, if_neg hfree, if_pos rfl]
    have hle := h.accounted.cancel_le c
    rw [hshare] at hle
    refine ⟨?_, h.flags, h.requests, h.pending_nil⟩
    refine Iff.mpr (accounted_of_change h.accounted rfl h.accounted.srv_le
      h.accounted.freeCount_eq h.accounted.nodup) ?_
    rw [hshare, hzero]
    simp only
    omega

omit [DecidableEq ι] in
theorem PoolInv.alloc (h : PoolInv cfg handle s) (pkt : ℕ) :
    PoolInv cfg handle (pktAlloc s pkt) := by
  unfold pktAlloc
  rcases hlist : s.freeList with _ | ⟨p, rest⟩
  · dsimp only
    split_ifs
    · exact h
    · refine ⟨⟨h.accounted.balance, h.accounted.srv_le, ?_, List.nodup_nil,
        h.accounted.cancel_le⟩, fun q => ?_, h.requests, h.pending_nil⟩
      · have hcount := h.accounted.freeCount_eq
        rw [hlist] at hcount
        exact hcount
      · -- a new packet is not on the list, which is empty
        have hq := h.flags q
        rw [hlist] at hq
        by_cases hqp : q = pkt
        · simp [hqp]
        · simp only [Function.update_of_ne hqp]
          exact hq
  · have hnodup := h.accounted.nodup
    have hcount := h.accounted.freeCount_eq
    rw [hlist] at hnodup hcount
    obtain ⟨hp, hrest⟩ := List.nodup_cons.mp hnodup
    refine ⟨⟨h.accounted.balance, h.accounted.srv_le, ?_, hrest, h.accounted.cancel_le⟩,
      fun q => ?_, h.requests, h.pending_nil⟩
    · simp only [hcount, List.length_cons, Nat.add_sub_cancel]
    · have hq := h.flags q
      rw [hlist, List.mem_cons] at hq
      by_cases hqp : q = p
      · subst hqp
        simp [hp]
      · simp only [Function.update_of_ne hqp]
        rw [hq]
        exact or_iff_right hqp

omit [DecidableEq ι] in
theorem PoolInv.free (h : PoolInv cfg handle s) (pkt : ℕ) :
    PoolInv cfg handle (pktFree cfg s pkt) := by
  unfold pktFree
  split_ifs with hon
  · exact h
  · apply PoolInv.reclaim
    have hnot : pkt ∉ s.freeList := fun hmem => hon ((h.flags pkt).mpr hmem)
    refine ⟨⟨h.accounted.balance, h.accounted.srv_le, ?_, ?_, h.accounted.cancel_le⟩,
      fun q => ?_, h.requests, h.pending_nil⟩
    · simp [h.accounted.freeCount_eq]
    · exact List.nodup_append.mpr ⟨h.accounted.nodup, List.nodup_singleton _, by
        intro a ha b hb hab
        rw [List.mem_singleton] at hb
        exact hnot (hb ▸ hab ▸ ha)⟩
    · by_cases hqp : q = pkt
      · subst hqp
        simp
      · simp only [Function.update_of_ne hqp, List.mem_append, List.mem_singleton, hqp, or_false]
        exact h.flags q

/-- **One step.**  From balanced accounts a step leads to balanced accounts if and only if
the grant it makes, if it makes one, is in time. -/
theorem accounted_step (s : PktPool ι) (e : PoolEvent ι) (s' : PktPool ι)
    (h : PoolInv cfg handle s) (hstep : poolStep cfg handle s e = some s') :
    (GrantsInTime cfg handle s e → PoolInv cfg handle s') ∧
      (Accounted cfg handle s' ↔ GrantsInTime cfg handle s e) := by
  -- for a step that grants nothing the condition asks nothing
  have htrivial : ∀ t : PktPool ι, PoolInv cfg handle t → GrantsInTime cfg handle s e → some t = some s' →
      (GrantsInTime cfg handle s e → PoolInv cfg handle s') ∧
        (Accounted cfg handle s' ↔ GrantsInTime cfg handle s e) := by
    intro t ht hP heq
    obtain rfl := Option.some_inj.mp heq
    exact ⟨fun _ => ht, iff_of_true ht.accounted hP⟩
  cases e with
  | adjust c nreq block =>
    simp only [poolStep, Option.ite_none_left_eq_some] at hstep
    obtain ⟨-, hstep⟩ := hstep
    unfold adjustReservation at hstep
    split_ifs at hstep with hway
    · -- a who-are-you handle
      exact htrivial _ (h.setFree (.inr hway.2)) (fun hc => by rw [hway.1] at hc; simp at hc) hstep
    · have hinh := h.inherit c
      have hway' : (handle c).isCbk = false → (handle c).isWay = false := by
        intro hcbk
        rw [← Bool.not_eq_true]
        exact fun hw => hway ⟨hcbk, hw⟩
      have horig : (handle c).isCbk = true →
          (inherit handle s c).nResvs c = s.nResvs (handle c).original := by
        intro hcbk
        simp [inherit, hcbk]
      dsimp only at hstep
      split_ifs at hstep with hhas
      · -- the call holds enough
        refine htrivial _ hinh (fun hcbk hlt => ?_) hstep
        rw [horig hcbk] at hhas
        omega
      · obtain rfl := Option.some_inj.mp hstep
        have hlt : (inherit handle s c).nResvs c < nreq := by omega
        have hP : GrantsInTime cfg handle s (.adjust c nreq block) ↔ InTime cfg handle
            (inherit handle s c) c (requestFor ((inherit handle s c).nResvs c) nreq) := by
          constructor
          · intro hP
            refine ⟨fun hcbk => ?_, fun _ _ => rfl⟩
            have horig' := horig hcbk
            rw [horig'] at hlt ⊢
            exact hP hcbk hlt
          · intro htime hcbk _
            have := htime.1 hcbk
            rwa [horig hcbk] at this
        have hacc : Accounted cfg handle (tryReserve cfg handle (inherit handle s c) c
            (requestFor ((inherit handle s c).nResvs c) nreq) block) ↔ _ :=
          tryReserve_accounted hinh.accounted hway' rfl hlt
        exact ⟨fun hp => hinh.tryReserve hway' rfl hlt (hP.mp hp), hacc.trans hP.symm⟩
  | wake c ok =>
    rw [poolStep] at hstep
    rcases hw : s.waiting c with _ | req
    · simp [hw] at hstep
    · obtain ⟨hway, hreq, hlt⟩ := h.requests c req hw
      rcases ok with _ | _
      · -- the call has failed
        simp only [hw, Bool.false_eq_true, if_false] at hstep
        have hinv : PoolInv cfg handle { s with waiting := Function.update s.waiting c none } := by
          refine ⟨⟨h.accounted.balance, h.accounted.srv_le, h.accounted.freeCount_eq,
            h.accounted.nodup, h.accounted.cancel_le⟩, h.flags, fun c' req' hw' => ?_,
            h.pending_nil⟩
          by_cases hc : c' = c
          · subst hc
            simp at hw'
          · exact h.requests c' req' (by simpa [Function.update_of_ne hc] using hw')
        exact htrivial _ hinv trivial hstep
      · simp only [hw, if_true, Option.some_inj] at hstep
        subst hstep
        have hP : GrantsInTime cfg handle s (.wake c true) ↔ InTime cfg handle s c req := by
          constructor
          · exact fun hP => hP req hw
          · intro htime req' hw'
            obtain rfl : req = req' := by
              rw [hw] at hw'
              exact Option.some_inj.mp hw'
            exact htime
        exact ⟨fun hp => h.tryReserve hway hreq hlt (hP.mp hp),
          (tryReserve_accounted h.accounted hway hreq hlt).trans hP.symm⟩
  | update c =>
    rw [poolStep, h.pending_nil] at hstep
    simp at hstep
  | cancel c => exact htrivial _ (h.cancel c) trivial hstep
  | alloc pkt => exact htrivial _ (h.alloc pkt) trivial hstep
  | free pkt => exact htrivial _ (h.free pkt) trivial hstep

/-! ### Runs -/

omit [DecidableEq ι] in
theorem poolInv_init (cfg : PoolCfg) (handle : ι → CallHandle ι) :
    PoolInv cfg handle (pktPoolInit cfg) := by
  have hbal : (pktPoolInit cfg : PktPool ι).reservations = cfg.maxNumPktsInFrag
      + (cfg.maxNumPktsInFrag + 1) * (pktPoolInit cfg : PktPool ι).srvResvAvail
      + ∑ c, share handle c ((pktPoolInit cfg : PktPool ι).nResvs c) := by
    simp [pktPoolInit, share]
  exact ⟨⟨hbal, le_rfl, rfl, List.nodup_nil, share_le_of_balance hbal⟩,
    fun p => by simp [pktPoolInit], fun c req hw => by simp [pktPoolInit] at hw, rfl⟩

/-- **Reservation accounting.**  For any calls and any order of their steps: in every state
of the run in which the pool lock is free the accounts balance, if and only if no request
that waited is granted free packets after the reservation of its call has changed, and
none is granted to a callback handle. -/
theorem accounted_iff (cfg : PoolCfg) (handle : ι → CallHandle ι) (es : List (PoolEvent ι)) :
    (∀ n s, exec (poolStep cfg handle) (pktPoolInit cfg) (es.take n) = some s →
      Accounted cfg handle s) ↔
    Along (poolStep cfg handle)
      (fun s e => (poolStep cfg handle s e).isSome → GrantsInTime cfg handle s e)
      (pktPoolInit cfg) es :=
  forall_reached_iff_along accounted_step (poolInv_init cfg handle)
    (poolInv_init cfg handle).accounted

end Steps

/-! ### A reservation that is lost -/

/-- Three client calls, and a pool that has packets for two small reservations beyond
what is set aside. -/
def smallPool : PoolCfg := { pktMax := 22 }

def clients (c : Fin 3) : CallHandle (Fin 3) := { original := c }

/-- Calls 0 and 2 hold all that can be reserved, and call 1 waits.  Call 0 ends; before
call 1 wakes up, the listener processes a fack for it and is granted its reservation. -/
def lostRun : List (PoolEvent (Fin 3)) :=
  [.adjust 0 2 true, .adjust 2 1 true, .adjust 1 1 true, .cancel 0, .adjust 1 1 false, .cancel 2,
    .wake 1 true]

/-- Two packets stay reserved for nobody. -/
theorem not_accounted :
    ¬ ∀ (cfg : PoolCfg) (handle : Fin 3 → CallHandle (Fin 3)) (es : List (PoolEvent (Fin 3)))
      (s : PktPool (Fin 3)), exec (poolStep cfg handle) (pktPoolInit cfg) es = some s →
        Accounted cfg handle s := by
  intro h
  have hrun : (exec (poolStep smallPool clients) (pktPoolInit smallPool) lostRun).map
      (fun s => (s.reservations, s.srvResvAvail, ∑ c, share clients c (s.nResvs c)))
      = some (21, 5, 2) := by
    decide
  obtain ⟨s, hs, hvals⟩ := Option.map_eq_some_iff.mp hrun
  obtain ⟨hres, hsrv, hsum⟩ : s.reservations = 21 ∧ s.srvResvAvail = 5 ∧
      ∑ c, share clients c (s.nResvs c) = 2 := by simpa using hvals
  have hbal := (h smallPool clients lostRun s hs).balance
  rw [hres, hsrv, hsum] at hbal
  exact absurd hbal (by decide)

end Dg
