/-
The pool of datagram sockets (dgsoc.c, dgsoc.h).

An element counts the references to it; the pool has one, and the listener one of a shared element.
The routines run under the lock of the pool; a `Wait` is a point at which a thread has let go of it
in the middle of a routine.

* `Ok` — the counts, the lists, who holds what, and what the threads still have to do;
* `Ok.change`, `Ok.free`, `Ok.create` — an element changes, is closed, is made;
* `step_spec` — the routines;
* `pool_kept` — runs in which memory is found, the listener takes what it is given, nothing is
  disabled while it is given to the listener, the listener does not read what it has disabled, and
  no callback goes by way of a private socket.
-/
import FreeDce.Lib.Runs

namespace Dg

namespace SockPool

/-! ### Data -/

def maxErrors : ℕ := 10
def maxPrivSocks : ℕ := 3

/-- `rpc_dg_sock_pool_elt_t`. -/
structure Elt where
  pseqId : ℕ
  refcnt : ℕ := 2
  errorCnt : ℕ := 0
  isServer : Bool
  isDisabled : Bool := false
  isPrivate : Bool
  ccall : Option ℕ := none
deriving DecidableEq

/-- Who has a reference: a client call; a server call, a packet or the thread that makes a server's
socket; or the listener. -/
inductive Holder
  | ccall (c : ℕ)
  | other (k : ℕ)
  | listener
deriving DecidableEq

def Holder.isCcall : Holder → Bool
  | .ccall _ => true
  | _ => false

/-- Where a thread goes on: a new shared element is on its list; the listener's reference to it is
counted; an element is disabled, and is to be taken from the listener; the routine that did so
returns to a thread that used the element. -/
inductive Wait
  | reference (h : Holder) (x : ℕ)
  | addDesc (h : Holder) (x : ℕ)
  | removeDesc (h : Holder) (x : ℕ)
  | after (h : Holder) (x : ℕ)
deriving DecidableEq

/-- The memory and the pool.  Then who has references, the waits, the elements as they were closed,
and those that were handed out, as they were then. -/
structure State where
  elt : ℕ → Option Elt := fun _ => none
  next : ℕ := 0
  privateSockets : List ℕ := []
  sharedSockets : List ℕ := []
  numEntries : ℕ := 0
  held : List (Holder × ℕ) := []
  waiting : List Wait := []
  closed : List (ℕ × Elt) := []
  handedOut : List Elt := []

/-! ### References -/

def State.setElt (s : State) (x : ℕ) (e : Elt) : State :=
  { s with elt := Function.update s.elt x (some e) }

/-- `sock_free`.  (Here and below, `none` is an access to memory that was freed.) -/
def sockFree (s : State) (x : ℕ) : Option State :=
  (s.elt x).map fun e =>
    { s with
      elt := Function.update s.elt x none
      privateSockets := if e.isPrivate then s.privateSockets.erase x else s.privateSockets
      sharedSockets := if e.isPrivate then s.sharedSockets else s.sharedSockets.erase x
      numEntries := s.numEntries - 1
      closed := (x, e) :: s.closed }

/-- `rpc__dg_network_sock_reference`, for a holder. -/
def sockReference (s : State) (h : Holder) (x : ℕ) : Option State :=
  (s.elt x).map fun e =>
    { s.setElt x { e with refcnt := e.refcnt + 1 } with held := (h, x) :: s.held }

/-- `rpc__dg_network_sock_release`. -/
def sockRelease (s : State) (h : Holder) (x : ℕ) : Option State :=
  (s.elt x).bind fun e =>
    let s := { s with held := s.held.erase (h, x) }
    if e.refcnt - 1 = 1 ∧ e.isDisabled then
      sockFree (s.setElt x { e with refcnt := e.refcnt - 1 }) x
    else some (s.setElt x { e with refcnt := e.refcnt - 1, ccall := none })

/-! ### Allocation -/

/-- What becomes of a new element. -/
inductive Creation
  | noMemory
  | cantCreateSock
  | cantBindSock
  | made
deriving DecidableEq

/-- The element is made and put on its list; a private one is handed out. -/
def create (s : State) (isServer isPrivate : Bool) (h : Holder) (pseqId : ℕ) : State :=
  let e : Elt := { pseqId := pseqId, isServer := isServer, isPrivate := isPrivate }
  { s with
    elt := Function.update s.elt s.next (some e)
    next := s.next + 1
    privateSockets := if isPrivate then s.next :: s.privateSockets else s.privateSockets
    sharedSockets := if isPrivate then s.sharedSockets else s.next :: s.sharedSockets
    numEntries := s.numEntries + 1
    held := (h, s.next) :: s.held
    waiting := if isPrivate then s.waiting else .reference h s.next :: s.waiting
    handedOut := if isPrivate then e :: s.handedOut else s.handedOut }

/-- The second half of `use_protseq`; the memory is written without a look whether there is any. -/
def allocate (s : State) (isServer isPrivate : Bool) (h : Holder) (pseqId : ℕ) :
    Creation → Option State
  | .noMemory => none
  | .cantCreateSock | .cantBindSock => some s
  | .made => some (create s isServer isPrivate h pseqId)

/-- An element that is there already is handed out. -/
def handOut (s : State) (h : Holder) (x : ℕ) : Option State :=
  (s.elt x).bind fun e => sockReference { s with handedOut := e :: s.handedOut } h x

def ofPseq (s : State) (pseqId x : ℕ) : Bool := (s.elt x).any fun e => e.pseqId = pseqId

def reusable (s : State) (pseqId x : ℕ) : Bool :=
  (s.elt x).any fun e => e.pseqId = pseqId && !e.isDisabled && e.refcnt = 1

def sharable (s : State) (pseqId x : ℕ) : Bool :=
  (s.elt x).any fun e => !e.isServer && e.pseqId = pseqId && !e.isDisabled

/-- `use_protseq`, up to where it lets go of the lock. -/
def useProtseq (s : State) (isServer : Bool) (h : Holder) (pseqId : ℕ) (creation : Creation) :
    Option State :=
  if isServer then allocate s true false h pseqId creation
  else
    match s.privateSockets.find? (reusable s pseqId) with
    | some x => handOut s h x
    | none =>
      if s.privateSockets.countP (ofPseq s pseqId) < maxPrivSocks then
        allocate s false true h pseqId creation
      else
        match s.sharedSockets.find? (sharable s pseqId) with
        | some x => handOut s h x
        | none => allocate s false false h pseqId creation

/-! ### Use -/

/-- `RPC_DG_SOCK_UPDATE_ERR_COUNT`, with `rpc__dg_network_disable_desc` up to where it lets go of
the lock. -/
def updateErrCount (s : State) (h : Holder) (x : ℕ) (eio : Bool) : Option State :=
  (s.elt x).map fun e =>
    if eio = false then s.setElt x { e with errorCnt := 0 }
    else
      let e := { e with errorCnt := (e.errorCnt + 1) % 2 ^ 8 }
      if maxErrors ≤ e.errorCnt ∧ e.isDisabled = false then
        { s.setElt x { e with isDisabled := true } with
          waiting := if e.isPrivate then s.waiting else .removeDesc h x :: s.waiting }
      else s.setElt x e

/-- A client call that was given a private socket is its owner. -/
def setCcall (s : State) (c x : ℕ) : Option State :=
  (s.elt x).map fun e => if e.isPrivate then s.setElt x { e with ccall := some c } else s

/-- A thread goes on; `added` is that the listener has taken what it is given. -/
def wake (s : State) (w : Wait) (added : Bool) : Option State :=
  let s := { s with waiting := s.waiting.erase w }
  match w with
  | .reference h x =>
    (sockReference s .listener x).map fun s => { s with waiting := .addDesc h x :: s.waiting }
  | .addDesc h x =>
    if added then (s.elt x).map fun e => { s with handedOut := e :: s.handedOut }
    else sockFree { s with held := (s.held.erase (h, x)).erase (.listener, x) } x
  | .removeDesc h x =>
    (sockRelease s .listener x).map fun s => { s with waiting := .after h x :: s.waiting }
  | .after _ x => (s.elt x).map fun _ => s

inductive Event
  | useProtseq (isServer : Bool) (h : Holder) (pseqId : ℕ) (creation : Creation)
  | setCcall (c x : ℕ)
  | reference (h : Holder) (x : ℕ)
  | release (h : Holder) (x : ℕ)
  | io (h : Holder) (x : ℕ) (eio : Bool)
  | wake (w : Wait) (added : Bool)

def step (s : State) : Event → Option State
  | .useProtseq isServer h pseqId creation => useProtseq s isServer h pseqId creation
  | .setCcall c x => setCcall s c x
  | .reference h x => sockReference s h x
  | .release h x => sockRelease s h x
  | .io h x eio => updateErrCount s h x eio
  | .wake w added => wake s w added

/-! ### What the program does -/

/-- An element is being given to the listener. -/
def Handing (s : State) (x : ℕ) : Prop :=
  ∃ h, .reference h x ∈ s.waiting ∨ .addDesc h x ∈ s.waiting

/-- What a thread that goes on relies on. -/
def Wait.needs : Wait → Holder × ℕ → Prop
  | .reference h x, p => p = (h, x)
  | .addDesc h x, p => p = (h, x)
  | .removeDesc h x, p => p = (h, x) ∨ p = (.listener, x)
  | .after h x, p => h ≠ .listener ∧ p = (h, x)

/-- References are used by those who have them: not by a thread that is still in the middle of
making the element, and by the listener when it has been given the element. -/
def Usable (s : State) (h : Holder) (x : ℕ) : Prop :=
  (h, x) ∈ s.held ∧ (h = .listener → ¬ Handing s x) ∧
    .reference h x ∉ s.waiting ∧ .addDesc h x ∉ s.waiting

/-- A call has one socket; references are given on by those who have them, and are released when no
routine is in the middle of using them. -/
def Possible (s : State) : Event → Prop
  | .useProtseq isServer h _ _ => h ≠ .listener ∧ h.isCcall = !isServer ∧ ∀ x, (h, x) ∉ s.held
  | .setCcall c x => Usable s (.ccall c) x
  | .reference h x => h ≠ .listener ∧ (∃ h', Usable s h' x) ∧ (h.isCcall → ∀ y, (h, y) ∉ s.held)
  | .release h x => h ≠ .listener ∧ (h, x) ∈ s.held ∧ ∀ w ∈ s.waiting, ¬ w.needs (h, x)
  | .io h x _ => Usable s h x
  | .wake w _ => w ∈ s.waiting

/-- There is memory; no call that is made for a callback has a private socket; nothing is disabled
while it is given to the listener; the listener takes it; and when the listener has disabled an
element, there is still another reference to it. -/
def Fortunate (s : State) : Event → Prop
  | .useProtseq _ _ _ creation => creation ≠ .noMemory
  | .reference h x => h.isCcall → ∀ e, s.elt x = some e → e.isPrivate = false
  | .io _ x eio => eio = true → ∀ e, s.elt x = some e → maxErrors ≤ (e.errorCnt + 1) % 2 ^ 8 →
      e.isDisabled = false → ¬ Handing s x
  | .wake (.addDesc _ _) added => added = true
  | .wake (.after .listener x) _ => (s.elt x).isSome
  | _ => True

def Allowed (s : State) (e : Event) : Prop := Possible s e ∧ Fortunate s e

/-! ### The invariant -/

def count (s : State) (x : ℕ) : ℕ := s.held.countP fun p => p.2 = x

def Wait.removes (x : ℕ) : Wait → Bool
  | .removeDesc _ y => y = x
  | _ => false

/-- An element counts its references and the pool's.  It is on its list until it is closed, and that
is once, when it is disabled and only the pool's reference is left.  A private one is held by one
call at most, and by the one that it names; there are no more than three of a protocol sequence.
Nothing that is disabled was handed out. -/
structure Ok (s : State) : Prop where
  refcnt : ∀ x e, s.elt x = some e → e.refcnt = 1 + count s x
  live : ∀ p ∈ s.held, (s.elt p.2).isSome
  privateSockets : ∀ x, x ∈ s.privateSockets ↔ ∃ e, s.elt x = some e ∧ e.isPrivate = true
  sharedSockets : ∀ x, x ∈ s.sharedSockets ↔ ∃ e, s.elt x = some e ∧ e.isPrivate = false
  nodup : s.privateSockets.Nodup ∧ s.sharedSockets.Nodup
  numEntries : s.numEntries = s.privateSockets.length + s.sharedSockets.length
  next : ∀ x, s.next ≤ x → s.elt x = none
  used : ∀ x e, s.elt x = some e → e.isDisabled = true → 0 < count s x
  once : (s.closed.map Prod.fst).Nodup ∧
    ∀ x, x ∈ s.closed.map Prod.fst ↔ x < s.next ∧ s.elt x = none
  closed : ∀ p ∈ s.closed, p.2.isDisabled = true ∧ p.2.refcnt = 1
  maxPriv : ∀ pseqId, s.privateSockets.countP (ofPseq s pseqId) ≤ maxPrivSocks
  owner : ∀ x e, s.elt x = some e → e.isPrivate = true →
    (s.held.countP fun p => p.1.isCcall && decide (p.2 = x)) ≤ 1
  ccall : ∀ x e c, s.elt x = some e → e.ccall = some c → (.ccall c, x) ∈ s.held
  handedOut : ∀ e ∈ s.handedOut, e.isDisabled = false
  needs : ∀ w ∈ s.waiting, ∀ p, w.needs p → p ∈ s.held
  removes : ∀ x, s.waiting.countP (Wait.removes x) ≤ 1
  removed : ∀ h x, .removeDesc h x ∈ s.waiting → ∀ e, s.elt x = some e → e.isDisabled = true
  handing : ∀ h x, .reference h x ∈ s.waiting ∨ .addDesc h x ∈ s.waiting →
    h ≠ .listener ∧ ∀ e, s.elt x = some e → e.isDisabled = false
  listens : ∀ x e, s.elt x = some e → e.isPrivate = false → e.isDisabled = false →
    (.listener, x) ∈ s.held ∨ ∃ h, .reference h x ∈ s.waiting

def Wait.elt : Wait → ℕ
  | .reference _ x | .addDesc _ x | .removeDesc _ x | .after _ x => x

variable {s : State} {x y : ℕ} {e : Elt} {h : Holder} {H : List (Holder × ℕ)} {W : List Wait}
  {O : List Elt}

/-! ### One element -/

theorem setElt_of_ne (hy : y ≠ x) : (s.setElt x e).elt y = s.elt y := Function.update_of_ne hy _ _

theorem setElt_self : (s.setElt x e).elt x = some e := Function.update_self _ _ _

theorem ofPseq_iff {pseqId : ℕ} :
    ofPseq s pseqId x = true ↔ ∃ e, s.elt x = some e ∧ e.pseqId = pseqId := by
  cases h : s.elt x <;> simp [ofPseq, h]

/-- References to other elements are the same. -/
def SameBut (x : ℕ) (H H' : List (Holder × ℕ)) : Prop :=
  (H.filter fun p => p.2 ≠ x) = H'.filter fun p => p.2 ≠ x

theorem SameBut.mem_iff {H' : List (Holder × ℕ)} (hs : SameBut x H H') {p : Holder × ℕ}
    (hp : p.2 ≠ x) : p ∈ H ↔ p ∈ H' := by
  have hmem := congrArg (p ∈ ·) hs
  simpa [hp] using hmem

theorem SameBut.countP_eq {H' : List (Holder × ℕ)} (hs : SameBut x H H') {q : Holder × ℕ → Bool}
    (hq : ∀ p, q p = true → p.2 ≠ x) : H.countP q = H'.countP q := by
  have hand : ∀ p, (q p && decide (p.2 ≠ x)) = q p := by
    intro p
    cases hp : q p with
    | false => rfl
    | true => exact decide_eq_true (hq p hp)
  have hcount := congrArg (List.countP q) hs
  simp only [List.countP_filter, hand] at hcount
  exact hcount

theorem sameBut_cons (h : Holder) (x : ℕ) (H : List (Holder × ℕ)) : SameBut x ((h, x) :: H) H := by
  simp [SameBut]

theorem sameBut_erase (h : Holder) (x : ℕ) (H : List (Holder × ℕ)) :
    SameBut x (H.erase (h, x)) H := by
  rw [SameBut, ← List.erase_filter]
  exact List.erase_of_not_mem (by simp)

/-- The waits for other elements are the same. -/
def WaitsBut (x : ℕ) (W W' : List Wait) : Prop := ∀ w : Wait, w.elt ≠ x → (w ∈ W ↔ w ∈ W')

/-- What is to be shown of an element that has changed to `e`. -/
structure OkAt (x : ℕ) (e : Elt) (H : List (Holder × ℕ)) (W : List Wait) : Prop where
  refcnt : e.refcnt = 1 + H.countP fun p => p.2 = x
  used : e.isDisabled = true → 0 < H.countP fun p => p.2 = x
  owner : e.isPrivate = true → (H.countP fun p => p.1.isCcall && decide (p.2 = x)) ≤ 1
  ccall : ∀ c, e.ccall = some c → (.ccall c, x) ∈ H
  needs : ∀ w ∈ W, w.elt = x → ∀ p, w.needs p → p ∈ H
  removes : W.countP (Wait.removes x) ≤ 1
  removed : ∀ h, .removeDesc h x ∈ W → e.isDisabled = true
  handing : ∀ h, .reference h x ∈ W ∨ .addDesc h x ∈ W → h ≠ .listener ∧ e.isDisabled = false
  listens : e.isPrivate = false → e.isDisabled = false →
    (.listener, x) ∈ H ∨ ∃ h, .reference h x ∈ W

theorem Wait.needs_elt {w : Wait} {p : Holder × ℕ} (hp : w.needs p) : p.2 = w.elt := by
  cases w with
  | reference h x => exact congrArg Prod.snd hp
  | addDesc h x => exact congrArg Prod.snd hp
  | removeDesc h x => exact hp.elim (congrArg Prod.snd) (congrArg Prod.snd)
  | after h x => exact congrArg Prod.snd hp.2

theorem Wait.removes_elt {w : Wait} (hw : w.removes x = true) : w.elt = x := by
  cases w with
  | removeDesc h y => exact of_decide_eq_true hw
  | reference h y => cases hw
  | addDesc h y => cases hw
  | after h y => cases hw

theorem Ok.okAt (hs : Ok s) (hx : s.elt x = some e) : OkAt x e s.held s.waiting where
  refcnt := hs.refcnt x e hx
  used := hs.used x e hx
  owner := hs.owner x e hx
  ccall c := hs.ccall x e c hx
  needs w hw _ := hs.needs w hw
  removes := hs.removes x
  removed h hw := hs.removed h x hw e hx
  handing h hw := ⟨(hs.handing h x hw).1, (hs.handing h x hw).2 e hx⟩
  listens := hs.listens x e hx

/-- One element changes, with the references to it and the waits for it. -/
theorem Ok.change (hs : Ok s) (e' : Elt) (hx : s.elt x = some e) (hpseq : e'.pseqId = e.pseqId)
    (hprivate : e'.isPrivate = e.isPrivate) (hH : SameBut x H s.held)
    (hW : WaitsBut x W s.waiting) (hcount : ∀ y ≠ x, W.countP (Wait.removes y) =
      s.waiting.countP (Wait.removes y))
    (hO : ∀ e ∈ O, e.isDisabled = false) (hat : OkAt x e' H W) :
    Ok { s.setElt x e' with held := H, waiting := W, handedOut := O } := by
  have helt : ∀ y e₁, (s.setElt x e').elt y = some e₁ →
      (y = x ∧ e₁ = e') ∨ (y ≠ x ∧ s.elt y = some e₁) := by
    intro y e₁ hy
    by_cases hxy : y = x
    · subst hxy
      rw [setElt_self] at hy
      exact .inl ⟨rfl, (Option.some_inj.mp hy).symm⟩
    · rw [setElt_of_ne hxy] at hy
      exact .inr ⟨hxy, hy⟩
  have hsome : ∀ y, ((s.setElt x e').elt y).isSome = (s.elt y).isSome := by
    intro y
    by_cases hxy : y = x
    · subst hxy
      rw [setElt_self, hx]
      rfl
    · rw [setElt_of_ne hxy]
  have hlist : ∀ y b, (∃ e, (s.setElt x e').elt y = some e ∧ e.isPrivate = b) ↔
      ∃ e, s.elt y = some e ∧ e.isPrivate = b := by
    intro y b
    by_cases hxy : y = x
    · subst hxy
      simp [setElt_self, hx, hprivate]
    · rw [setElt_of_ne hxy]
  have hotherCount : ∀ y, y ≠ x → (H.countP fun p => p.2 = y) = count s y := by
    intro y hy
    refine hH.countP_eq fun p hp => ?_
    rw [of_decide_eq_true hp]
    exact hy
  refine ⟨?_, ?_, ?_, ?_, hs.nodup, hs.numEntries, ?_, ?_, ?_, hs.closed, ?_, ?_, ?_, hO, ?_, ?_,
    ?_, ?_, ?_⟩
  · intro y e₁ hy
    rcases helt y e₁ hy with ⟨rfl, rfl⟩ | ⟨hne, hy⟩
    · exact hat.refcnt
    · exact (hs.refcnt y e₁ hy).trans (congrArg (1 + ·) (hotherCount y hne).symm)
  · intro p hp
    rw [hsome]
    by_cases hpx : p.2 = x
    · rw [hpx, hx]
      rfl
    · exact hs.live p ((hH.mem_iff hpx).mp hp)
  · exact fun y => (hs.privateSockets y).trans (hlist y true).symm
  · exact fun y => (hs.sharedSockets y).trans (hlist y false).symm
  · intro y hy
    have hnone := hs.next y hy
    have hsome' := hsome y
    rw [hnone] at hsome'
    exact Option.not_isSome_iff_eq_none.mp (by rw [hsome']; exact Bool.false_ne_true)
  · intro y e₁ hy hdis
    rcases helt y e₁ hy with ⟨rfl, rfl⟩ | ⟨hne, hy⟩
    · exact hat.used hdis
    · exact lt_of_lt_of_eq (hs.used y e₁ hy hdis) (hotherCount y hne).symm
  · refine ⟨hs.once.1, fun y => (hs.once.2 y).trans (and_congr_right fun _ => ?_)⟩
    rw [← Option.not_isSome_iff_eq_none, ← Option.not_isSome_iff_eq_none, ← hsome y]
  · intro pseqId
    refine le_trans (le_of_eq (List.countP_congr fun y _ => ?_)) (hs.maxPriv pseqId)
    show ofPseq (s.setElt x e') pseqId y = true ↔ _
    rw [ofPseq, ofPseq]
    by_cases hxy : y = x
    · subst hxy
      rw [setElt_self, hx, Option.any_some, Option.any_some, hpseq]
    · rw [setElt_of_ne hxy]
  · intro y e₁ hy hpriv
    rcases helt y e₁ hy with ⟨rfl, rfl⟩ | ⟨hne, hy⟩
    · exact hat.owner hpriv
    · refine le_trans (le_of_eq (hH.countP_eq fun p hp => ?_)) (hs.owner y e₁ hy hpriv)
      rw [of_decide_eq_true (Bool.and_eq_true_iff.mp hp).2]
      exact hne
  · intro y e₁ c hy hc
    rcases helt y e₁ hy with ⟨rfl, rfl⟩ | ⟨hne, hy⟩
    · exact hat.ccall c hc
    · exact (hH.mem_iff hne).mpr (hs.ccall y e₁ c hy hc)
  · intro w hw p hp
    by_cases hwx : w.elt = x
    · exact hat.needs w hw hwx p hp
    · exact (hH.mem_iff (by rw [w.needs_elt hp]; exact hwx)).mpr
        (hs.needs w ((hW w hwx).mp hw) p hp)
  · intro y
    by_cases hxy : y = x
    · exact hxy ▸ hat.removes
    · exact (hcount y hxy).trans_le (hs.removes y)
  · intro h y hw e₁ hy
    rcases helt y e₁ hy with ⟨rfl, rfl⟩ | ⟨hne, hy⟩
    · exact hat.removed h hw
    · exact hs.removed h y ((hW (.removeDesc h y) hne).mp hw) e₁ hy
  · intro h y hw
    by_cases hxy : y = x
    · subst hxy
      obtain ⟨hl, hdis⟩ := hat.handing h hw
      refine ⟨hl, fun e₁ hy => ?_⟩
      rcases helt y e₁ hy with ⟨-, rfl⟩ | ⟨hne, -⟩
      · exact hdis
      · exact absurd rfl hne
    · have hold := hs.handing h y
        (hw.imp (hW (.reference h y) hxy).mp (hW (.addDesc h y) hxy).mp)
      refine ⟨hold.1, fun e₁ hy => ?_⟩
      rcases helt y e₁ hy with ⟨rfl, -⟩ | ⟨-, hy⟩
      · exact absurd rfl hxy
      · exact hold.2 e₁ hy
  · intro y e₁ hy hpriv hdis
    rcases helt y e₁ hy with ⟨rfl, rfl⟩ | ⟨hne, hy⟩
    · exact hat.listens hpriv hdis
    · refine (hs.listens y e₁ hy hpriv hdis).imp (hH.mem_iff hne).mpr ?_
      exact fun ⟨h, hw⟩ => ⟨h, (hW (.reference h y) hne).mpr hw⟩

/-- An element is closed: no one has a reference to it. -/
theorem Ok.free (hs : Ok s) (e' : Elt) (hx : s.elt x = some e)
    (hprivate : e'.isPrivate = e.isPrivate) (hdis : e'.isDisabled = true)
    (hrefcnt : e'.refcnt = 1) (hH : SameBut x H s.held)
    (hnone : ∀ p ∈ H, p.2 ≠ x) (hW : WaitsBut x W s.waiting)
    (hcount : ∀ y ≠ x, W.countP (Wait.removes y) = s.waiting.countP (Wait.removes y))
    (hneeds : ∀ w ∈ W, w.elt = x → ∀ p, ¬ w.needs p) :
    Ok { s with
      elt := Function.update s.elt x none
      privateSockets := if e'.isPrivate then s.privateSockets.erase x else s.privateSockets
      sharedSockets := if e'.isPrivate then s.sharedSockets else s.sharedSockets.erase x
      numEntries := s.numEntries - 1
      held := H
      waiting := W
      closed := (x, e') :: s.closed } := by
  have helt : ∀ y e₁, Function.update s.elt x none y = some e₁ → y ≠ x ∧ s.elt y = some e₁ := by
    intro y e₁ hy
    by_cases hxy : y = x
    · subst hxy
      rw [Function.update_self] at hy
      cases hy
    · rw [Function.update_of_ne hxy] at hy
      exact ⟨hxy, hy⟩
  have hlist : ∀ b (l : List ℕ), l.Nodup → (∀ y, y ∈ l ↔ ∃ e, s.elt y = some e ∧ e.isPrivate = b) →
      ∀ y, y ∈ (if e'.isPrivate = b then l.erase x else l) ↔
        ∃ e, Function.update s.elt x none y = some e ∧ e.isPrivate = b := by
    intro b l hnodup hl y
    by_cases hxy : y = x
    · subst hxy
      rw [Function.update_self]
      refine iff_of_false ?_ (fun ⟨_, h, _⟩ => by cases h)
      by_cases hb : e'.isPrivate = b
      · rw [if_pos hb]
        exact fun hmem => (hnodup.mem_erase_iff.mp hmem).1 rfl
      · rw [if_neg hb, hl]
        rintro ⟨e₁, he₁, hb₁⟩
        rw [hx] at he₁
        cases he₁
        exact hb (hprivate.trans hb₁)
    · rw [Function.update_of_ne hxy, ← hl]
      split
      · exact List.mem_erase_of_ne hxy
      · exact Iff.rfl
  have hfalse : (if e'.isPrivate then s.sharedSockets else s.sharedSockets.erase x) =
      if e'.isPrivate = false then s.sharedSockets.erase x else s.sharedSockets := by
    cases e'.isPrivate <;> rfl
  have hotherCount : ∀ y, y ≠ x → (H.countP fun p => p.2 = y) = count s y := by
    intro y hy
    refine hH.countP_eq fun p hp => ?_
    rw [of_decide_eq_true hp]
    exact hy
  have hclosed : x ∉ s.closed.map Prod.fst := by
    intro hmem
    have := ((hs.once.2 x).mp hmem).2
    rw [hx] at this
    cases this
  have hlt : x < s.next := by
    by_contra hle
    rw [hs.next x (Nat.le_of_not_lt hle)] at hx
    cases hx
  refine ⟨?_, ?_, hlist true _ hs.nodup.1 hs.privateSockets, ?_, ?_, ?_, ?_, ?_, ?_, ?_, ?_, ?_, ?_,
    hs.handedOut, ?_, ?_, ?_, ?_, ?_⟩
  · intro y e₁ hy
    obtain ⟨hne, hy⟩ := helt y e₁ hy
    exact (hs.refcnt y e₁ hy).trans (congrArg (1 + ·) (hotherCount y hne).symm)
  · intro p hp
    have hpx := hnone p hp
    show (Function.update s.elt x none p.2).isSome
    rw [Function.update_of_ne hpx]
    exact hs.live p ((hH.mem_iff hpx).mp hp)
  · show ∀ y, y ∈ (if e'.isPrivate then s.sharedSockets else s.sharedSockets.erase x) ↔ _
    rw [hfalse]
    exact hlist false _ hs.nodup.2 hs.sharedSockets
  · constructor
    · show (if e'.isPrivate then s.privateSockets.erase x else s.privateSockets).Nodup
      split
      · exact hs.nodup.1.erase x
      · exact hs.nodup.1
    · show (if e'.isPrivate then s.sharedSockets else s.sharedSockets.erase x).Nodup
      split
      · exact hs.nodup.2
      · exact hs.nodup.2.erase x
  · show s.numEntries - 1 = (if e'.isPrivate then _ else _ : List ℕ).length +
      (if e'.isPrivate then _ else _ : List ℕ).length
    rw [hs.numEntries]
    cases hp : e'.isPrivate with
    | true =>
      have hmem := (hs.privateSockets x).mpr ⟨e, hx, hprivate.symm.trans hp⟩
      have hpos := List.length_pos_of_mem hmem
      rw [if_pos rfl, if_pos rfl, List.length_erase_of_mem hmem]
      omega
    | false =>
      have hmem := (hs.sharedSockets x).mpr ⟨e, hx, hprivate.symm.trans hp⟩
      have hpos := List.length_pos_of_mem hmem
      rw [if_neg Bool.false_ne_true, if_neg Bool.false_ne_true, List.length_erase_of_mem hmem]
      omega
  · intro y hy
    show Function.update s.elt x none y = none
    rw [Function.update_of_ne (Nat.ne_of_gt (lt_of_lt_of_le hlt hy))]
    exact hs.next y hy
  · intro y e₁ hy hd
    obtain ⟨hne, hy⟩ := helt y e₁ hy
    exact lt_of_lt_of_eq (hs.used y e₁ hy hd) (hotherCount y hne).symm
  · refine ⟨List.nodup_cons.mpr ⟨hclosed, hs.once.1⟩, fun y => ?_⟩
    show y ∈ x :: s.closed.map Prod.fst ↔ y < s.next ∧ Function.update s.elt x none y = none
    by_cases hxy : y = x
    · subst hxy
      rw [Function.update_self]
      exact iff_of_true List.mem_cons_self ⟨hlt, rfl⟩
    · rw [Function.update_of_ne hxy, List.mem_cons, or_iff_right hxy]
      exact hs.once.2 y
  · intro p hp
    rcases List.mem_cons.mp hp with rfl | hp
    · exact ⟨hdis, hrefcnt⟩
    · exact hs.closed p hp
  · intro pseqId
    have hsub : (if e'.isPrivate then s.privateSockets.erase x else s.privateSockets).Sublist
        s.privateSockets := by
      split
      · exact List.erase_sublist
      · exact .refl _
    refine le_trans (List.countP_mono_left fun y _ hy => ?_)
      ((hsub.countP_le (p := ofPseq s pseqId)).trans (hs.maxPriv pseqId))
    obtain ⟨e₁, he₁, hp₁⟩ := ofPseq_iff.mp hy
    exact ofPseq_iff.mpr ⟨e₁, (helt y e₁ he₁).2, hp₁⟩
  · intro y e₁ hy hpriv
    obtain ⟨hne, hy⟩ := helt y e₁ hy
    refine le_trans (le_of_eq (hH.countP_eq fun p hp => ?_)) (hs.owner y e₁ hy hpriv)
    rw [of_decide_eq_true (Bool.and_eq_true_iff.mp hp).2]
    exact hne
  · intro y e₁ c hy hc
    obtain ⟨hne, hy⟩ := helt y e₁ hy
    exact (hH.mem_iff hne).mpr (hs.ccall y e₁ c hy hc)
  · intro w hw p hp
    by_cases hwx : w.elt = x
    · exact absurd hp (hneeds w hw hwx p)
    · exact (hH.mem_iff (by rw [w.needs_elt hp]; exact hwx)).mpr
        (hs.needs w ((hW w hwx).mp hw) p hp)
  · intro y
    by_cases hxy : y = x
    · subst hxy
      refine (List.countP_eq_zero.mpr fun w hw hr => ?_).trans_le (Nat.zero_le 1)
      cases w with
      | removeDesc h z => exact hneeds _ hw (Wait.removes_elt hr) _ (.inl rfl)
      | reference h z => cases hr
      | addDesc h z => cases hr
      | after h z => cases hr
    · exact (hcount y hxy).trans_le (hs.removes y)
  · intro h y hw e₁ hy
    obtain ⟨hne, hy⟩ := helt y e₁ hy
    exact hs.removed h y ((hW (.removeDesc h y) hne).mp hw) e₁ hy
  · intro h y hw
    by_cases hxy : y = x
    · exfalso
      subst hxy
      rcases hw with hw | hw
      · exact hneeds _ hw rfl _ rfl
      · exact hneeds _ hw rfl _ rfl
    · have hold := hs.handing h y
        (hw.imp (hW (.reference h y) hxy).mp (hW (.addDesc h y) hxy).mp)
      exact ⟨hold.1, fun e₁ hy => hold.2 e₁ (helt y e₁ hy).2⟩
  · intro y e₁ hy hpriv hd
    obtain ⟨hne, hy⟩ := helt y e₁ hy
    refine (hs.listens y e₁ hy hpriv hd).imp (hH.mem_iff hne).mpr ?_
    exact fun ⟨h, hw⟩ => ⟨h, (hW (.reference h y) hne).mpr hw⟩

/-! ### The routines -/

theorem WaitsBut.refl (x : ℕ) (W : List Wait) : WaitsBut x W W := fun _ _ => Iff.rfl

theorem Usable.elt (hs : Ok s) (hu : Usable s h x) : ∃ e, s.elt x = some e :=
  Option.isSome_iff_exists.mp (hs.live _ hu.1)

/-- A new reference. -/
theorem OkAt.cons (hat : OkAt x e H W) (howner : e.isPrivate = true → h.isCcall = true →
    (H.countP fun p => p.1.isCcall && decide (p.2 = x)) = 0) :
    OkAt x { e with refcnt := e.refcnt + 1 } ((h, x) :: H) W where
  refcnt := by
    rw [List.countP_cons_of_pos (by simp), hat.refcnt]
    rfl
  used _ := by
    rw [List.countP_cons_of_pos (by simp)]
    exact Nat.succ_pos _
  owner hp := by
    by_cases hc : h.isCcall = true
    · rw [List.countP_cons_of_pos (by simp [hc]), howner hp hc]
    · rw [List.countP_cons_of_neg (by simp [hc])]
      exact hat.owner hp
  ccall c hc := List.mem_cons_of_mem _ (hat.ccall c hc)
  needs w hw hwx p hp := List.mem_cons_of_mem _ (hat.needs w hw hwx p hp)
  removes := hat.removes
  removed := hat.removed
  handing := hat.handing
  listens hp hd := (hat.listens hp hd).imp_left (List.mem_cons_of_mem _)

theorem Ok.reference (hs : Ok s) (hx : s.elt x = some e) (howner : e.isPrivate = true →
    h.isCcall = true → (s.held.countP fun p => p.1.isCcall && decide (p.2 = x)) = 0)
    (hO : ∀ e ∈ O, e.isDisabled = false) :
    ∃ s', sockReference { s with handedOut := O } h x = some s' ∧ Ok s' := by
  refine ⟨_, congrArg (Option.map _) hx, ?_⟩
  exact hs.change { e with refcnt := e.refcnt + 1 } (O := O) hx rfl rfl
    (sameBut_cons h x s.held) (.refl x _) (fun _ _ => rfl) hO ((hs.okAt hx).cons howner)

theorem Ok.handOut (hs : Ok s) (hx : s.elt x = some e) (hdis : e.isDisabled = false)
    (howner : e.isPrivate = true → count s x = 0) :
    ∃ s', handOut s h x = some s' ∧ Ok s' := by
  have hO : ∀ e₁ ∈ e :: s.handedOut, e₁.isDisabled = false := by
    intro e₁ he₁
    rcases List.mem_cons.mp he₁ with rfl | he₁
    · exact hdis
    · exact hs.handedOut e₁ he₁
  obtain ⟨s', hrun, hok⟩ := hs.reference (h := h) hx (fun hp _ => by
    refine List.countP_eq_zero.mpr fun p hp' hc => ?_
    exact List.countP_eq_zero.mp (howner hp) p hp' (Bool.and_eq_true_iff.mp hc).2) hO
  refine ⟨s', ?_, hok⟩
  rw [SockPool.handOut, hx, Option.bind_some]
  exact hrun

theorem Ok.io (hs : Ok s) {eio : Bool} (hu : Usable s h x) (hgood : Fortunate s (.io h x eio)) :
    ∃ s', updateErrCount s h x eio = some s' ∧ Ok s' := by
  obtain ⟨e, hx⟩ := hu.elt hs
  have hat := hs.okAt hx
  refine ⟨_, congrArg (Option.map _) hx, ?_⟩
  have hsame : SameBut x s.held s.held := rfl
  have herror : ∀ n, Ok (s.setElt x { e with errorCnt := n }) := fun n =>
    hs.change { e with errorCnt := n } hx rfl rfl hsame (.refl x _) (fun _ _ => rfl)
      hs.handedOut ⟨hat.refcnt, hat.used, hat.owner, hat.ccall, hat.needs, hat.removes, hat.removed,
        hat.handing, hat.listens⟩
  cases eio with
  | false => exact herror 0
  | true =>
    dsimp only
    rw [if_neg (by decide)]
    split
    · rename_i htenth
      -- the element is disabled now; a shared one is to be taken from the listener
      obtain ⟨htenth, hdis⟩ := htenth
      have hhanding : ¬ Handing s x := hgood rfl e hx htenth hdis
      have hpos : 0 < s.held.countP fun p => p.2 = x :=
        List.countP_pos_iff.mpr ⟨(h, x), hu.1, decide_eq_true rfl⟩
      have hnoRemove : ∀ h', .removeDesc h' x ∉ s.waiting := by
        intro h' hw
        have := hs.removed h' x hw e hx
        rw [hdis] at this
        cases this
      by_cases hp : e.isPrivate = true
      · rw [if_pos hp]
        exact hs.change { e with
            errorCnt := (e.errorCnt + 1) % 2 ^ 8, isDisabled := true } hx rfl rfl hsame
          (.refl x _) (fun _ _ => rfl) hs.handedOut
          ⟨hat.refcnt, fun _ => hpos, hat.owner, hat.ccall, hat.needs, hat.removes, fun _ _ => rfl,
            fun h' hw => absurd ⟨h', hw⟩ hhanding, fun _ hd => by cases hd⟩
      · rw [if_neg hp]
        have hlistener : (.listener, x) ∈ s.held :=
          (hs.listens x e hx (Bool.eq_false_iff.mpr hp) hdis).resolve_right
            fun ⟨h', hw⟩ => hhanding ⟨h', .inl hw⟩
        refine hs.change { e with
            errorCnt := (e.errorCnt + 1) % 2 ^ 8, isDisabled := true } hx rfl rfl hsame
          ?_ ?_ hs.handedOut
          ⟨hat.refcnt, fun _ => hpos, hat.owner, hat.ccall, ?_, ?_, fun _ _ => rfl, ?_,
            fun _ hd => by cases hd⟩
        · intro w hw
          rw [List.mem_cons, or_iff_right]
          rintro rfl
          exact hw rfl
        · intro y hy
          rw [List.countP_cons_of_neg (by simpa [Wait.removes] using Ne.symm hy)]
        · intro w hw hwx p hp
          rcases List.mem_cons.mp hw with rfl | hw
          · rcases hp with rfl | rfl
            · exact hu.1
            · exact hlistener
          · exact hs.needs w hw p hp
        · rw [List.countP_cons_of_pos (by simp [Wait.removes])]
          have hzero : s.waiting.countP (Wait.removes x) = 0 := by
            refine List.countP_eq_zero.mpr fun w hw hr => ?_
            have hwx := Wait.removes_elt hr
            cases w with
            | removeDesc h' z =>
              have hz : z = x := hwx
              exact hnoRemove h' (hz ▸ hw)
            | reference h' z => cases hr
            | addDesc h' z => cases hr
            | after h' z => cases hr
          rw [hzero]
        · intro h' hw
          refine absurd ⟨h', ?_⟩ hhanding
          rcases hw with hw | hw
          · rcases List.mem_cons.mp hw with heq | hw
            · cases heq
            · exact .inl hw
          · rcases List.mem_cons.mp hw with heq | hw
            · cases heq
            · exact .inr hw
    · exact herror _

theorem Ok.setCcall (hs : Ok s) {c : ℕ} (hu : Usable s (.ccall c) x) :
    ∃ s', setCcall s c x = some s' ∧ Ok s' := by
  obtain ⟨e, hx⟩ := hu.elt hs
  have hat := hs.okAt hx
  refine ⟨_, congrArg (Option.map _) hx, ?_⟩
  dsimp only
  split
  · refine hs.change { e with ccall := some c } hx rfl rfl rfl (.refl x _) (fun _ _ => rfl)
      hs.handedOut ⟨hat.refcnt, hat.used, hat.owner, ?_, hat.needs, hat.removes, hat.removed,
        hat.handing, hat.listens⟩
    intro c' hc'
    cases hc'
    exact hu.1
  · exact hs

/-- A reference is released that no thread relies on. -/
theorem Ok.release (hs : Ok s) (hmem : (h, x) ∈ s.held) (hW : WaitsBut x W s.waiting)
    (hcount : ∀ y ≠ x, W.countP (Wait.removes y) = s.waiting.countP (Wait.removes y))
    (hneeds : ∀ w ∈ W, ∀ p, w.needs p → p ∈ s.held ∧ p ≠ (h, x))
    (hremoves : W.countP (Wait.removes x) ≤ 1)
    (hremoved : ∀ h', .removeDesc h' x ∈ W → .removeDesc h' x ∈ s.waiting)
    (hhanding : ∀ h', .reference h' x ∈ W ∨ .addDesc h' x ∈ W →
      .reference h' x ∈ s.waiting ∨ .addDesc h' x ∈ s.waiting)
    (hreference : ∀ h', .reference h' x ∈ s.waiting → .reference h' x ∈ W)
    (hlistener : h = .listener → ∀ e, s.elt x = some e → e.isDisabled = true) :
    ∃ s', sockRelease { s with waiting := W } h x = some s' ∧ Ok s' := by
  obtain ⟨e, hx⟩ : ∃ e, s.elt x = some e := Option.isSome_iff_exists.mp (hs.live _ hmem)
  have hat := hs.okAt hx
  have hperm := List.perm_cons_erase hmem
  have hheld : (s.held.countP fun p => p.2 = x) =
      ((s.held.erase (h, x)).countP fun p => p.2 = x) + 1 := by
    rw [hperm.countP_eq, List.countP_cons_of_pos (by simp)]
  have hkeep : ∀ p ∈ s.held, p ≠ (h, x) → p ∈ s.held.erase (h, x) := fun p hp hne =>
    (List.mem_erase_of_ne hne).mpr hp
  have hrefcnt := hat.refcnt
  -- the last reference to a disabled element closes it; otherwise the owner's name is cleared
  by_cases hfree : e.refcnt - 1 = 1 ∧ e.isDisabled = true
  · obtain ⟨hone, hdis⟩ := hfree
    have hzero : ((s.held.erase (h, x)).countP fun p => p.2 = x) = 0 := by omega
    have hnone : ∀ p ∈ s.held.erase (h, x), p.2 ≠ x := fun p hp hpx =>
      List.countP_eq_zero.mp hzero p hp (decide_eq_true hpx)
    have hok := hs.free { e with refcnt := e.refcnt - 1 } hx rfl hdis hone
      (sameBut_erase h x s.held) hnone hW hcount (fun w hw hwx p hp => by
        obtain ⟨hp', hne⟩ := hneeds w hw p hp
        exact hnone p (hkeep p hp' hne) ((w.needs_elt hp).trans hwx))
    refine ⟨_, ?_, hok⟩
    rw [sockRelease, hx, Option.bind_some]
    dsimp only
    rw [if_pos ⟨hone, hdis⟩, sockFree, setElt_self, Option.map_some, State.setElt]
    dsimp only
    rw [Function.update_idem]
  · have hok := hs.change { e with refcnt := e.refcnt - 1, ccall := none }
      (O := s.handedOut) hx rfl rfl (sameBut_erase h x s.held) hW hcount hs.handedOut
      { refcnt := by
          show e.refcnt - 1 = 1 + (s.held.erase (h, x)).countP fun p => p.2 = x
          have hpos : 0 < s.held.countP fun p => p.2 = x := by omega
          omega
        used := fun hd => by
          by_contra hnot
          refine hfree ⟨?_, hd⟩
          omega
        owner := fun hp => le_trans (List.erase_sublist.countP_le) (hat.owner hp)
        ccall := fun c hc => by cases hc
        needs := fun w hw _ p hp => hkeep p (hneeds w hw p hp).1 (hneeds w hw p hp).2
        removes := hremoves
        removed := fun h' hw => hat.removed h' (hremoved h' hw)
        handing := fun h' hw => hat.handing h' (hhanding h' hw)
        listens := fun hp hd => by
          refine (hat.listens hp hd).imp (fun hl => hkeep _ hl fun heq => ?_)
            fun ⟨h', hw⟩ => ⟨h', hreference h' hw⟩
          have hdis := hlistener (congrArg Prod.fst heq).symm e hx
          have hd' : e.isDisabled = false := hd
          rw [hd'] at hdis
          cases hdis }
    refine ⟨_, ?_, hok⟩
    rw [sockRelease, hx, Option.bind_some]
    dsimp only
    rw [if_neg hfree]
    rfl

/-- A new element; no one has a reference to it but the thread that has made it. -/
theorem Ok.create (hs : Ok s) (isServer : Bool) {isPrivate : Bool} (hl : h ≠ .listener)
    {pseqId : ℕ} (hmax : isPrivate = true →
      s.privateSockets.countP (ofPseq s pseqId) < maxPrivSocks) :
    Ok (create s isServer isPrivate h pseqId) := by
  have hnew : s.elt s.next = none := hs.next _ le_rfl
  have hheld : ∀ p ∈ s.held, p.2 ≠ s.next := by
    intro p hp hpx
    have hlive := hs.live p hp
    rw [hpx, hnew] at hlive
    cases hlive
  have hwait : ∀ w ∈ s.waiting, ∀ p, w.needs p → w.elt ≠ s.next := fun w hw p hp =>
    (w.needs_elt hp) ▸ hheld p (hs.needs w hw p hp)
  have hzero : ∀ q : Holder × ℕ → Bool, (∀ p, q p = true → p.2 = s.next) → s.held.countP q = 0 :=
    fun q hq => List.countP_eq_zero.mpr fun p hp hqp => hheld p hp (hq p hqp)
  let e : Elt := { pseqId := pseqId, isServer := isServer, isPrivate := isPrivate }
  have helt : ∀ y e₁, Function.update s.elt s.next (some e) y = some e₁ →
      (y = s.next ∧ e₁ = e) ∨ (y ≠ s.next ∧ s.elt y = some e₁) := by
    intro y e₁ hy
    by_cases hxy : y = s.next
    · rw [hxy, Function.update_self] at hy
      exact .inl ⟨hxy, (Option.some_inj.mp hy).symm⟩
    · rw [Function.update_of_ne hxy] at hy
      exact .inr ⟨hxy, hy⟩
  have hlist : ∀ b (l : List ℕ), (∀ y, y ∈ l ↔ ∃ e, s.elt y = some e ∧ e.isPrivate = b) →
      ∀ y, y ∈ (if isPrivate = b then s.next :: l else l) ↔
        ∃ e₁, Function.update s.elt s.next (some e) y = some e₁ ∧ e₁.isPrivate = b := by
    intro b l hl y
    by_cases hxy : y = s.next
    · rw [hxy, Function.update_self]
      split
      · exact iff_of_true List.mem_cons_self ⟨e, rfl, ‹_›⟩
      · refine iff_of_false ?_ fun ⟨e₁, he₁, hb⟩ => ?_
        · rw [hl, hnew]
          rintro ⟨e₁, he₁, -⟩
          cases he₁
        · cases he₁
          exact absurd hb ‹_›
    · rw [Function.update_of_ne hxy, ← hl]
      split
      · rw [List.mem_cons, or_iff_right hxy]
      · exact Iff.rfl
  have hfalse : ∀ l l' : List ℕ, (if isPrivate then l else l') =
      if isPrivate = false then l' else l := by
    intro l l'
    cases isPrivate <;> rfl
  have hnotMem : s.next ∉ s.privateSockets ∧ s.next ∉ s.sharedSockets := by
    rw [hs.privateSockets, hs.sharedSockets, hnew]
    constructor <;> (rintro ⟨e₁, he₁, -⟩; cases he₁)
  have hW : ∀ w ∈ (if isPrivate then s.waiting else .reference h s.next :: s.waiting),
      w ∈ s.waiting ∨ (w = .reference h s.next ∧ isPrivate = false) := by
    intro w hw
    split at hw
    · exact .inl hw
    · rename_i hp
      rcases List.mem_cons.mp hw with rfl | hw
      · exact .inr ⟨rfl, Bool.eq_false_iff.mpr hp⟩
      · exact .inl hw
  refine ⟨?_, ?_, hlist true _ hs.privateSockets, ?_, ?_, ?_, ?_, ?_, ?_, hs.closed, ?_, ?_, ?_, ?_,
    ?_, ?_, ?_, ?_, ?_⟩
  · intro y e₁ hy
    show e₁.refcnt = 1 + ((h, s.next) :: s.held).countP fun p => p.2 = y
    rcases helt y e₁ hy with ⟨rfl, rfl⟩ | ⟨hne, hy⟩
    · rw [List.countP_cons_of_pos (by simp), hzero _ fun p hp => of_decide_eq_true hp]
    · rw [List.countP_cons_of_neg (by simpa using Ne.symm hne)]
      exact hs.refcnt y e₁ hy
  · intro p hp
    show (Function.update s.elt s.next (some e) p.2).isSome
    rcases List.mem_cons.mp hp with rfl | hp
    · rw [Function.update_self]
      rfl
    · rw [Function.update_of_ne (hheld p hp)]
      exact hs.live p hp
  · show ∀ y, y ∈ (if isPrivate then s.sharedSockets else s.next :: s.sharedSockets) ↔ _
    rw [hfalse]
    exact hlist false _ hs.sharedSockets
  · constructor
    · show (if isPrivate then s.next :: s.privateSockets else s.privateSockets).Nodup
      split
      · exact List.nodup_cons.mpr ⟨hnotMem.1, hs.nodup.1⟩
      · exact hs.nodup.1
    · show (if isPrivate then s.sharedSockets else s.next :: s.sharedSockets).Nodup
      split
      · exact hs.nodup.2
      · exact List.nodup_cons.mpr ⟨hnotMem.2, hs.nodup.2⟩
  · show s.numEntries + 1 = (if isPrivate then _ else _ : List ℕ).length +
      (if isPrivate then _ else _ : List ℕ).length
    rw [hs.numEntries]
    cases isPrivate with
    | true =>
      rw [if_pos rfl, if_pos rfl, List.length_cons]
      omega
    | false =>
      rw [if_neg Bool.false_ne_true, if_neg Bool.false_ne_true, List.length_cons]
      omega
  · intro y hy
    show Function.update s.elt s.next (some e) y = none
    have hlt : s.next < y := hy
    rw [Function.update_of_ne hlt.ne']
    exact hs.next y hlt.le
  · intro y e₁ hy hd
    show 0 < ((h, s.next) :: s.held).countP fun p => p.2 = y
    rcases helt y e₁ hy with ⟨rfl, rfl⟩ | ⟨hne, hy⟩
    · cases hd
    · rw [List.countP_cons_of_neg (by simpa using Ne.symm hne)]
      exact hs.used y e₁ hy hd
  · refine ⟨hs.once.1, fun y => ?_⟩
    show y ∈ s.closed.map Prod.fst ↔
      y < s.next + 1 ∧ Function.update s.elt s.next (some e) y = none
    by_cases hxy : y = s.next
    · rw [hxy, Function.update_self, hs.once.2]
      exact iff_of_false (fun hc => absurd hc.1 (lt_irrefl _)) (fun hc => by cases hc.2)
    · rw [Function.update_of_ne hxy, hs.once.2]
      exact and_congr_left fun _ => by omega
  · intro pseqId'
    have hof : ∀ y ∈ s.privateSockets, ofPseq (SockPool.create s isServer isPrivate h pseqId)
        pseqId' y = true → ofPseq s pseqId' y = true := by
      intro y hy hp
      obtain ⟨e₁, he₁, hp₁⟩ := ofPseq_iff.mp hp
      rcases helt y e₁ he₁ with ⟨rfl, -⟩ | ⟨-, he₁⟩
      · exact absurd hy hnotMem.1
      · exact ofPseq_iff.mpr ⟨e₁, he₁, hp₁⟩
    have hle := List.countP_mono_left hof
    have hold := hs.maxPriv pseqId'
    show (if isPrivate then s.next :: s.privateSockets else s.privateSockets).countP _ ≤ _
    split
    · rename_i hp
      by_cases hpseq : pseqId = pseqId'
      · have hlt := hmax hp
        rw [hpseq] at hlt
        rw [List.countP_cons]
        split <;> omega
      · rw [List.countP_cons_of_neg]
        · exact hle.trans hold
        · intro hc
          obtain ⟨e₁, he₁, hp₁⟩ := ofPseq_iff.mp hc
          rcases helt _ e₁ he₁ with ⟨-, rfl⟩ | ⟨hne, -⟩
          · exact hpseq hp₁
          · exact hne rfl
    · exact hle.trans hold
  · intro y e₁ hy hp
    show (((h, s.next) :: s.held).countP fun p => p.1.isCcall && decide (p.2 = y)) ≤ 1
    rcases helt y e₁ hy with ⟨rfl, rfl⟩ | ⟨hne, hy⟩
    · rw [List.countP_cons, hzero _ fun p hp => of_decide_eq_true (Bool.and_eq_true_iff.mp hp).2]
      split <;> omega
    · rw [List.countP_cons_of_neg (by simpa using fun _ => Ne.symm hne)]
      exact hs.owner y e₁ hy hp
  · intro y e₁ c hy hc
    rcases helt y e₁ hy with ⟨rfl, rfl⟩ | ⟨hne, hy⟩
    · cases hc
    · exact List.mem_cons_of_mem _ (hs.ccall y e₁ c hy hc)
  · intro e₁ he₁
    change e₁ ∈ (if isPrivate then e :: s.handedOut else s.handedOut) at he₁
    split at he₁
    · rcases List.mem_cons.mp he₁ with rfl | he₁
      · rfl
      · exact hs.handedOut e₁ he₁
    · exact hs.handedOut e₁ he₁
  · intro w hw p hp
    rcases hW w hw with hw | ⟨rfl, -⟩
    · exact List.mem_cons_of_mem _ (hs.needs w hw p hp)
    · exact List.mem_cons.mpr (.inl hp)
  · intro y
    show (if isPrivate then s.waiting else .reference h s.next :: s.waiting).countP _ ≤ 1
    split
    · exact hs.removes y
    · exact (List.countP_cons_of_neg (by simp [Wait.removes])).trans_le (hs.removes y)
  · intro h' y hw e₁ hy
    rcases hW _ hw with hw | ⟨heq, -⟩
    · rcases helt y e₁ hy with ⟨rfl, -⟩ | ⟨-, hy⟩
      · exact absurd rfl (hwait _ hw _ (.inl rfl))
      · exact hs.removed h' y hw e₁ hy
    · cases heq
  · intro h' y hw
    have hold : .reference h' y ∈ s.waiting ∨ .addDesc h' y ∈ s.waiting ∨
        (h' = h ∧ y = s.next) := by
      rcases hw with hw | hw
      · rcases hW _ hw with hw | ⟨heq, -⟩
        · exact .inl hw
        · cases heq
          exact .inr (.inr ⟨rfl, rfl⟩)
      · rcases hW _ hw with hw | ⟨heq, -⟩
        · exact .inr (.inl hw)
        · cases heq
    rcases hold with hw | hw | ⟨rfl, rfl⟩
    · refine ⟨(hs.handing h' y (.inl hw)).1, fun e₁ hy => ?_⟩
      rcases helt y e₁ hy with ⟨-, rfl⟩ | ⟨-, hy⟩
      · rfl
      · exact (hs.handing h' y (.inl hw)).2 e₁ hy
    · refine ⟨(hs.handing h' y (.inr hw)).1, fun e₁ hy => ?_⟩
      rcases helt y e₁ hy with ⟨-, rfl⟩ | ⟨-, hy⟩
      · rfl
      · exact (hs.handing h' y (.inr hw)).2 e₁ hy
    · refine ⟨hl, fun e₁ hy => ?_⟩
      rcases helt _ e₁ hy with ⟨-, rfl⟩ | ⟨hne, -⟩
      · rfl
      · exact absurd rfl hne
  · intro y e₁ hy hp hd
    rcases helt y e₁ hy with ⟨rfl, rfl⟩ | ⟨hne, hy⟩
    · have hp' : isPrivate = false := hp
      refine .inr ⟨h, ?_⟩
      show _ ∈ (if isPrivate then s.waiting else .reference h s.next :: s.waiting)
      rw [hp', if_neg Bool.false_ne_true]
      exact List.mem_cons_self
    · refine (hs.listens y e₁ hy hp hd).imp (List.mem_cons_of_mem _) fun ⟨h', hw⟩ => ⟨h', ?_⟩
      show _ ∈ (if isPrivate then s.waiting else .reference h s.next :: s.waiting)
      split
      · exact hw
      · exact List.mem_cons_of_mem _ hw

/-! ### Threads that go on -/

theorem countP_erase_wait {w : Wait} (hw : w ∈ s.waiting) (hy : ¬ w.removes y = true) :
    (s.waiting.erase w).countP (Wait.removes y) = s.waiting.countP (Wait.removes y) := by
  rw [(List.perm_cons_erase hw).countP_eq, List.countP_cons_of_neg hy]

theorem WaitsBut.swap {w w' : Wait} (hw : w.elt = x) (hw' : w'.elt = x) :
    WaitsBut x (w' :: s.waiting.erase w) s.waiting := by
  intro w₁ hne
  rw [List.mem_cons, or_iff_right, List.mem_erase_of_ne]
  · rintro rfl
    exact hne hw
  · rintro rfl
    exact hne hw'

theorem Ok.drop (hs : Ok s) {w : Wait} (href : ∀ h x, w ≠ .reference h x)
    (hO : ∀ e ∈ O, e.isDisabled = false) :
    Ok { s with waiting := s.waiting.erase w, handedOut := O } where
  refcnt := hs.refcnt
  live := hs.live
  privateSockets := hs.privateSockets
  sharedSockets := hs.sharedSockets
  nodup := hs.nodup
  numEntries := hs.numEntries
  next := hs.next
  used := hs.used
  once := hs.once
  closed := hs.closed
  maxPriv := hs.maxPriv
  owner := hs.owner
  ccall := hs.ccall
  handedOut := hO
  needs w₁ hw₁ := hs.needs w₁ (List.mem_of_mem_erase hw₁)
  removes y := (List.erase_sublist.countP_le).trans (hs.removes y)
  removed h y hw₁ := hs.removed h y (List.mem_of_mem_erase hw₁)
  handing h y hw₁ := hs.handing h y (hw₁.imp List.mem_of_mem_erase List.mem_of_mem_erase)
  listens y e hy hp hd := (hs.listens y e hy hp hd).imp_right fun ⟨h, hw₁⟩ =>
    ⟨h, (List.mem_erase_of_ne (href h y).symm).mpr hw₁⟩

/-- The listener's reference is counted. -/
theorem Ok.wakeReference (hs : Ok s) (hw : .reference h x ∈ s.waiting) (added : Bool) :
    ∃ s', wake s (.reference h x) added = some s' ∧ Ok s' := by
  have hmem := hs.needs _ hw (h, x) rfl
  obtain ⟨e, hx⟩ : ∃ e, s.elt x = some e := Option.isSome_iff_exists.mp (hs.live _ hmem)
  have hat := (hs.okAt hx).cons (h := .listener) fun _ hc => by cases hc
  have hrun : wake s (.reference h x) added = some {
      s.setElt x { e with refcnt := e.refcnt + 1 } with
      held := (.listener, x) :: s.held
      waiting := .addDesc h x :: s.waiting.erase (.reference h x) } := by
    rw [wake]
    dsimp only
    rw [sockReference, hx]
    rfl
  refine ⟨_, hrun, ?_⟩
  refine hs.change { e with refcnt := e.refcnt + 1 } (O := s.handedOut) hx rfl rfl
    (sameBut_cons .listener x s.held) (WaitsBut.swap rfl rfl) ?_ hs.handedOut
    { refcnt := hat.refcnt
      used := hat.used
      owner := hat.owner
      ccall := hat.ccall
      needs := ?_
      removes := ?_
      removed := ?_
      handing := ?_
      listens := fun _ _ => .inl List.mem_cons_self }
  · intro y _
    rw [List.countP_cons_of_neg (by simp [Wait.removes]),
      countP_erase_wait hw (by simp [Wait.removes])]
  · intro w₁ hw₁ _ p hp
    rcases List.mem_cons.mp hw₁ with rfl | hw₁
    · exact List.mem_cons_of_mem _ (hs.needs _ hw p hp)
    · exact List.mem_cons_of_mem _ (hs.needs _ (List.mem_of_mem_erase hw₁) p hp)
  · rw [List.countP_cons_of_neg (by simp [Wait.removes])]
    exact (List.erase_sublist.countP_le).trans (hs.removes x)
  · intro h' hw'
    rcases List.mem_cons.mp hw' with heq | hw'
    · cases heq
    · exact hs.removed h' x (List.mem_of_mem_erase hw') e hx
  · intro h' hw'
    have hdis := (hs.handing h x (.inl hw)).2 e hx
    refine ⟨?_, hdis⟩
    rcases hw' with hw' | hw'
    · rcases List.mem_cons.mp hw' with heq | hw'
      · cases heq
      · exact (hs.handing h' x (.inl (List.mem_of_mem_erase hw'))).1
    · rcases List.mem_cons.mp hw' with heq | hw'
      · cases heq
        exact (hs.handing _ x (.inl hw)).1
      · exact (hs.handing h' x (.inr (List.mem_of_mem_erase hw'))).1

theorem sockRelease_waiting (s : State) (h : Holder) (x : ℕ) (w : Wait) :
    ((sockRelease s h x).map fun s => { s with waiting := w :: s.waiting }) =
      sockRelease { s with waiting := w :: s.waiting } h x := by
  rw [sockRelease, sockRelease]
  cases hx : s.elt x with
  | none => rfl
  | some e =>
    rw [Option.bind_some, Option.bind_some]
    split
    · rw [sockFree, sockFree, setElt_self, setElt_self]
      rfl
    · rfl

/-- The listener has ceased to use an element that is disabled. -/
theorem Ok.wakeRemove (hs : Ok s) (hw : .removeDesc h x ∈ s.waiting) (added : Bool) :
    ∃ s', wake s (.removeDesc h x) added = some s' ∧ Ok s' := by
  have hmem := hs.needs _ hw (.listener, x) (.inr rfl)
  have hone : (s.waiting.erase (.removeDesc h x)).countP (Wait.removes x) = 0 := by
    have hle := hs.removes x
    rw [(List.perm_cons_erase hw).countP_eq,
      List.countP_cons_of_pos (by simp [Wait.removes])] at hle
    omega
  have hrelease := hs.release (h := .listener) (x := x)
    (W := .after h x :: s.waiting.erase (.removeDesc h x)) hmem (WaitsBut.swap rfl rfl) ?_ ?_ ?_
    ?_ ?_ ?_ (fun _ e hx => hs.removed h x hw e hx)
  · obtain ⟨s', hrun, hok⟩ := hrelease
    refine ⟨s', ?_, hok⟩
    rw [SockPool.wake, sockRelease_waiting]
    exact hrun
  · intro y hy
    rw [List.countP_cons_of_neg (by simp [Wait.removes]),
      countP_erase_wait hw (by simpa [Wait.removes] using Ne.symm hy)]
  · intro w₁ hw₁ p hp
    rcases List.mem_cons.mp hw₁ with rfl | hw₁
    · obtain ⟨hne, rfl⟩ := hp
      exact ⟨hs.needs _ hw (h, x) (.inl rfl), fun heq => hne (congrArg Prod.fst heq)⟩
    · have hin := List.mem_of_mem_erase hw₁
      refine ⟨hs.needs w₁ hin p hp, ?_⟩
      rintro rfl
      -- only a routine that disables relies on the listener, and there is one for an element
      cases w₁ with
      | reference h' z => exact (hs.handing h' z (.inl hin)).1 (congrArg Prod.fst hp).symm
      | addDesc h' z => exact (hs.handing h' z (.inr hin)).1 (congrArg Prod.fst hp).symm
      | removeDesc h' z =>
        have hz : z = x := (Wait.needs_elt (w := .removeDesc h' z) hp).symm
        exact List.countP_eq_zero.mp hone _ hw₁ (decide_eq_true hz)
      | after h' z => exact hp.1 (congrArg Prod.fst hp.2).symm
  · rw [List.countP_cons_of_neg (by simp [Wait.removes]), hone]
    exact Nat.zero_le 1
  · intro h' hw'
    rcases List.mem_cons.mp hw' with heq | hw'
    · cases heq
    · exact List.mem_of_mem_erase hw'
  · intro h' hw'
    rcases hw' with hw' | hw'
    · rcases List.mem_cons.mp hw' with heq | hw'
      · cases heq
      · exact .inl (List.mem_of_mem_erase hw')
    · rcases List.mem_cons.mp hw' with heq | hw'
      · cases heq
      · exact .inr (List.mem_of_mem_erase hw')
  · intro h' hw'
    refine List.mem_cons_of_mem _ ((List.mem_erase_of_ne ?_).mpr hw')
    intro heq
    cases heq

theorem Ok.wake (hs : Ok s) {w : Wait} (hw : w ∈ s.waiting) {added : Bool}
    (hgood : Fortunate s (.wake w added)) : ∃ s', wake s w added = some s' ∧ Ok s' := by
  cases w with
  | reference h x => exact hs.wakeReference hw added
  | addDesc h x =>
    have hmem := hs.needs _ hw (h, x) rfl
    obtain ⟨e, hx⟩ : ∃ e, s.elt x = some e := Option.isSome_iff_exists.mp (hs.live _ hmem)
    have hadded : added = true := hgood
    have hO : ∀ e₁ ∈ e :: s.handedOut, e₁.isDisabled = false := by
      intro e₁ he₁
      rcases List.mem_cons.mp he₁ with rfl | he₁
      · exact (hs.handing h x (.inr hw)).2 _ hx
      · exact hs.handedOut e₁ he₁
    refine ⟨_, ?_, hs.drop (w := .addDesc h x) (fun _ _ heq => by cases heq) hO⟩
    rw [SockPool.wake, hadded]
    dsimp only
    rw [if_pos rfl, hx]
    rfl
  | removeDesc h x => exact hs.wakeRemove hw added
  | after h x =>
    have hlive : (s.elt x).isSome := by
      by_cases hl : h = .listener
      · subst hl
        exact hgood
      · exact hs.live _ (hs.needs _ hw (h, x) ⟨hl, rfl⟩)
    obtain ⟨e, hx⟩ := Option.isSome_iff_exists.mp hlive
    refine ⟨_, ?_, hs.drop (w := .after h x) (fun _ _ heq => by cases heq) hs.handedOut⟩
    rw [SockPool.wake]
    dsimp only
    rw [hx]
    rfl

/-! ### Allocation -/

theorem Ok.allocate (hs : Ok s) (isServer : Bool) {isPrivate : Bool} (hl : h ≠ .listener)
    {pseqId : ℕ} {creation : Creation} (hmemory : creation ≠ .noMemory)
    (hmax : isPrivate = true → s.privateSockets.countP (ofPseq s pseqId) < maxPrivSocks) :
    ∃ s', allocate s isServer isPrivate h pseqId creation = some s' ∧ Ok s' := by
  cases creation with
  | noMemory => exact absurd rfl hmemory
  | cantCreateSock => exact ⟨s, rfl, hs⟩
  | cantBindSock => exact ⟨s, rfl, hs⟩
  | made => exact ⟨_, rfl, hs.create isServer hl hmax⟩

theorem Ok.useProtseq (hs : Ok s) (isServer : Bool) (hl : h ≠ .listener) (pseqId : ℕ)
    {creation : Creation} (hmemory : creation ≠ .noMemory) :
    ∃ s', useProtseq s isServer h pseqId creation = some s' ∧ Ok s' := by
  rw [SockPool.useProtseq]
  split
  · exact hs.allocate true hl hmemory fun hp => by cases hp
  cases hprivate : s.privateSockets.find? (reusable s pseqId) with
  | some x =>
    have hfound := List.find?_some hprivate
    have hx' : x ∈ s.privateSockets := List.mem_of_find?_eq_some hprivate
    obtain ⟨e, hx, -⟩ := (hs.privateSockets x).mp hx'
    rw [reusable, hx] at hfound
    simp only [Option.any_some, Bool.and_eq_true, Bool.not_eq_true', decide_eq_true_eq] at hfound
    obtain ⟨⟨-, hdis⟩, hrefcnt⟩ := hfound
    -- no one but the pool has a reference to it
    refine hs.handOut hx hdis fun _ => ?_
    have := hs.refcnt x e hx
    omega
  | none =>
    dsimp only
    split
    · exact hs.allocate false hl hmemory fun _ => ‹_›
    cases hshared : s.sharedSockets.find? (sharable s pseqId) with
    | some x =>
      have hfound := List.find?_some hshared
      have hx' : x ∈ s.sharedSockets := List.mem_of_find?_eq_some hshared
      obtain ⟨e, hx, hp⟩ := (hs.sharedSockets x).mp hx'
      rw [sharable, hx] at hfound
      simp only [Option.any_some, Bool.and_eq_true, Bool.not_eq_true', decide_eq_true_eq] at hfound
      refine hs.handOut hx hfound.2 fun hp' => ?_
      rw [hp] at hp'
      cases hp'
    | none => exact hs.allocate false hl hmemory fun hp => by cases hp

/-! ### Runs -/

theorem step_spec (s : State) (a : Event) (hs : Ok s) (ha : Allowed s a) :
    ∃ s', step s a = some s' ∧ Ok s' := by
  obtain ⟨hpossible, hgood⟩ := ha
  cases a with
  | useProtseq isServer h pseqId creation => exact hs.useProtseq isServer hpossible.1 pseqId hgood
  | setCcall c x => exact hs.setCcall hpossible
  | reference h x =>
    obtain ⟨-, ⟨h', hu⟩, hfresh⟩ := hpossible
    obtain ⟨e, hx⟩ := hu.elt hs
    refine hs.reference (O := s.handedOut) hx (fun hp hc => ?_) hs.handedOut
    have hshared := hgood hc e hx
    rw [hp] at hshared
    cases hshared
  | release h x =>
    obtain ⟨hl, hmem, hneeds⟩ := hpossible
    exact hs.release hmem (.refl x _) (fun _ _ => rfl)
      (fun w hw p hp => ⟨hs.needs w hw p hp, fun heq => hneeds w hw (heq ▸ hp)⟩) (hs.removes x)
      (fun _ hw => hw) (fun _ hw => hw) (fun _ hw => hw) fun heq => absurd heq hl
  | io h x eio => exact hs.io hpossible hgood
  | wake w added => exact hs.wake hpossible hgood

theorem ok_init : Ok {} where
  refcnt x e hx := by cases hx
  live p hp := by cases hp
  privateSockets x := iff_of_false (fun hx => by cases hx) fun ⟨_, hx, _⟩ => by cases hx
  sharedSockets x := iff_of_false (fun hx => by cases hx) fun ⟨_, hx, _⟩ => by cases hx
  nodup := ⟨.nil, .nil⟩
  numEntries := rfl
  next x _ := rfl
  used x e hx := by cases hx
  once := ⟨.nil, fun x => iff_of_false (fun hx => by cases hx) fun hx =>
    absurd hx.1 (Nat.not_lt_zero x)⟩
  closed p hp := by cases hp
  maxPriv _ := Nat.zero_le _
  owner x e hx := by cases hx
  ccall x e c hx := by cases hx
  handedOut e he := by cases he
  needs w hw := by cases hw
  removes x := Nat.zero_le 1
  removed h x hw := by cases hw
  handing h x hw := by rcases hw with hw | hw <;> cases hw
  listens x e hx := by cases hx

/-- **The pool is kept** in every run in which threads are fortunate: nothing that was freed is
touched, and each element counts its holders. -/
theorem pool_kept {es : List Event} (hes : Runs.Along step Allowed {} es) :
    ∃ s, Runs.exec step {} es = some s ∧ Ok s :=
  Runs.exec_of_along step_spec ok_init hes

/-- A call makes a private socket, and releases it. -/
theorem pool_kept_private : ∃ s, Runs.exec step {}
    [.useProtseq false (.ccall 1) 0 .made, .io (.ccall 1) 0 true, .release (.ccall 1) 0] = some s ∧
      Ok s := by
  refine pool_kept ?_
  have hfresh : ∀ x, (Holder.ccall 1, x) ∉ ({} : State).held := fun _ hx => by cases hx
  refine Runs.along_cons.mpr ⟨⟨⟨by decide, rfl, hfresh⟩, ?_⟩, ?_⟩
  · show Creation.made ≠ .noMemory
    decide
  intro s₁ hs₁
  cases hs₁
  refine Runs.along_cons.mpr ⟨⟨⟨List.mem_cons_self, ?_, by decide, by decide⟩, ?_⟩, ?_⟩
  · intro hl
    cases hl
  · intro _ e hx h10
    cases hx
    exact absurd h10 (by decide)
  intro s₂ hs₂
  cases hs₂
  refine Runs.along_cons.mpr ⟨⟨⟨by decide, List.mem_cons_self, ?_⟩, trivial⟩, fun _ _ => trivial⟩
  intro w hw
  cases hw

/-- A server's socket that the listener does not take is freed with three references, and not
disabled. -/
theorem refused_element_freed :
    ((Runs.exec step {} [.useProtseq true (.other 0) 0 .made, .wake (.reference (.other 0) 0) true,
      .wake (.addDesc (.other 0) 0) false]).map fun s =>
        s.closed.map fun p => (p.1, p.2.refcnt, p.2.isDisabled)) = some [(0, 3, false)] := by
  decide

end SockPool

end Dg
