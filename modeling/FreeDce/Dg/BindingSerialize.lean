/-
Serialization of calls on a client binding handle (dgccall.c, dg.c).

Calls on a handle wait for each other until the handle is bound to a server instance.  A step is
what one thread does while it holds the global lock; waiting gives the lock up.

* `bindingStep_spec` — what holds after every step, whatever the threads do;
* `serialized_of_along` — what holds if no call ends on which a sleeping thread waits, and none
  is started beside a broadcast.
-/
import FreeDce.Lib.Runs

namespace Dg

open Runs

/-- The options of a call: `rpc_c_call_brdcst` and `rpc_c_call_maybe`. -/
structure CallOptions where
  brdcst : Bool
  maybe : Bool

/-- A call in progress: whether its server address is known, and whether the transceive has found
the handle not bound and is about to bind it. -/
structure BindingCall where
  thread : ℕ
  options : CallOptions
  serverBound : Bool
  binds : Bool

/-- A thread in `ccall_binding_serialize`, asleep or with a wake-up pending. -/
structure BindingWaiter where
  thread : ℕ
  options : CallOptions
  woken : Bool
  isAwaitingTimeout : Bool

/-- What calls use of `rpc_dg_binding_client_t`, with the threads that use it. -/
structure BindingRep where
  boundServerInstance : Bool
  callsInProgress : ℕ
  calls : List BindingCall
  waiters : List BindingWaiter

/-- How the start of a call turns out: no call handle is had, or no endpoint found for it. -/
inductive StartOutcome
  | ok
  | noCallHandle
  | noEndpoint
deriving DecidableEq

/-- The cancel timeout of a thread. -/
inductive CancelTimeout
  | zero
  | finite
  | infinite

inductive BindingOp
  | callStart (thread : ℕ) (options : CallOptions) (outcome : StartOutcome)
  | wake (thread : ℕ) (outcome : StartOutcome)
  | cancel (thread : ℕ) (timeout : CancelTimeout) (outcome : StartOutcome)
  | timeOut (thread : ℕ) (hasTimedOut : Bool) (outcome : StartOutcome)
  | transceive (thread : ℕ) (responded : Bool)
  | bind (thread : ℕ)
  | callEnd (thread : ℕ)

variable (b : BindingRep)

/-- The condition of the wait. -/
def mustWait (options : CallOptions) : Bool :=
  (b.boundServerInstance = false || options.brdcst) && b.callsInProgress ≠ 0

/-- `rpc__dg_call_start` behind the wait; a broadcast unbinds the handle. -/
def startCall (thread : ℕ) (options : CallOptions) : StartOutcome → BindingRep
  | .noCallHandle => b
  | .noEndpoint => { b with boundServerInstance := b.boundServerInstance && !options.brdcst }
  | .ok =>
    let bound := b.boundServerInstance && !options.brdcst
    { b with
      boundServerInstance := bound
      callsInProgress := b.callsInProgress + 1
      calls := ⟨thread, options, bound, false⟩ :: b.calls }

/-- A thread waits, or starts its call. -/
def enter (w : BindingWaiter) (outcome : StartOutcome) : BindingRep :=
  if mustWait b w.options then { b with waiters := { w with woken := false } :: b.waiters }
  else startCall b w.thread w.options outcome

/-- A thread is back from its wait. -/
def takeWaiter (thread : ℕ) : Option (BindingWaiter × BindingRep) :=
  (b.waiters.find? fun w => w.thread = thread).map fun w =>
    (w, { b with waiters := b.waiters.filter fun w => w.thread ≠ thread })

def setCall (thread : ℕ) (f : BindingCall → BindingCall) : BindingRep :=
  { b with calls := b.calls.map fun c => if c.thread = thread then f c else c }

/-- The end of `rpc__dg_call_transceive`, after the response if there is one. -/
def transceived (responded : Bool) (c : BindingCall) : BindingCall :=
  if c.options.maybe then c
  else
    let serverBound := c.serverBound || responded
    { c with serverBound := serverBound, binds := !b.boundServerInstance && serverBound }

/-- A step of a thread; `none` if the thread cannot do it, or an assertion fails. -/
def bindingStep : BindingOp → Option BindingRep
  | .callStart thread options outcome =>
    if (b.calls.any fun c => c.thread = thread) || b.waiters.any fun w => w.thread = thread then none
    else some (enter b ⟨thread, options, false, false⟩ outcome)
  | .wake thread outcome => do
    let (w, b) ← takeWaiter b thread
    if w.woken then some (enter b w outcome) else none
  | .cancel thread timeout outcome => do
    let (w, b) ← takeWaiter b thread
    match timeout with
    | .zero => some b
    | .finite => some (enter b { w with isAwaitingTimeout := true } outcome)
    | .infinite => some (enter b w outcome)
  | .timeOut thread hasTimedOut outcome => do
    let (w, b) ← takeWaiter b thread
    if ¬ w.isAwaitingTimeout then none
    else if hasTimedOut then some b
    else some (enter b w outcome)
  | .transceive thread responded =>
    if b.calls.any fun c => c.thread = thread then
      some (setCall b thread (transceived b responded))
    else none
  | .bind thread =>
    if b.calls.any fun c => c.thread = thread && c.binds then
      some { setCall b thread fun c => { c with binds := false } with
        boundServerInstance := true
        waiters := b.waiters.map fun w => { w with woken := true } }
    else none
  | .callEnd thread =>
    if (b.calls.any fun c => c.thread = thread) ∧ 0 < b.callsInProgress then
      some { b with
        callsInProgress := b.callsInProgress - 1
        calls := b.calls.eraseP fun c => c.thread = thread }
    else none

/-- A handle that is not used yet. -/
def BindingRep.new (bound : Bool) : BindingRep := ⟨bound, 0, [], []⟩

/-! ### What every step keeps -/

structure BindingOk (b : BindingRep) : Prop where
  count : b.callsInProgress = b.calls.length
  exclusive : b.boundServerInstance = false → b.calls.length ≤ 1
  broadcast : ∀ c ∈ b.calls, c.options.brdcst = true → c.serverBound = false →
    b.boundServerInstance = false
  binds : ∀ c ∈ b.calls, c.binds = true → c.serverBound = true
  wake : ∀ w ∈ b.waiters, w.woken = false → b.boundServerInstance = false ∨ w.options.brdcst = true

variable {b} {b' : BindingRep} {w : BindingWaiter} {outcome : StartOutcome} {thread : ℕ}

theorem mustWait_iff {options : CallOptions} : mustWait b options = true ↔
    (b.boundServerInstance = false ∨ options.brdcst = true) ∧ b.callsInProgress ≠ 0 := by
  simp [mustWait]

/-- A call that leaves the handle unbound starts when there is no other one. -/
theorem BindingOk.calls_eq_nil (h : BindingOk b) {options : CallOptions}
    (hwait : ¬ mustWait b options = true)
    (hunbound : (b.boundServerInstance && !options.brdcst) = false) : b.calls = [] := by
  by_contra hne
  refine hwait (mustWait_iff.mpr ⟨?_, ?_⟩)
  · cases hbound : b.boundServerInstance
    · exact Or.inl rfl
    · rw [hbound] at hunbound
      exact Or.inr (by simpa using hunbound)
  · rw [h.count]
    exact fun hzero => hne (List.length_eq_zero_iff.mp hzero)

theorem BindingOk.enter (h : BindingOk b) (w : BindingWaiter) (outcome : StartOutcome) :
    BindingOk (enter b w outcome) := by
  rw [Dg.enter]
  by_cases hwait : mustWait b w.options = true
  · rw [if_pos hwait]
    refine ⟨h.count, h.exclusive, h.broadcast, h.binds, ?_⟩
    intro w' hw' hwoken
    rcases List.mem_cons.mp hw' with rfl | hw'
    · exact (mustWait_iff.mp hwait).1
    · exact h.wake w' hw' hwoken
  · rw [if_neg hwait]
    have hfree := h.calls_eq_nil hwait
    have hstays : ∀ c ∈ b.calls, c.options.brdcst = true → c.serverBound = false →
        (b.boundServerInstance && !w.options.brdcst) = false := by
      intro c hc hbrdcst hserver
      rw [h.broadcast c hc hbrdcst hserver]
      rfl
    have hwake : ∀ w' ∈ b.waiters, w'.woken = false →
        (b.boundServerInstance && !w.options.brdcst) = false ∨ w'.options.brdcst = true := by
      intro w' hw' hwoken
      refine (h.wake w' hw' hwoken).imp_left fun hbound => ?_
      rw [hbound]
      rfl
    cases outcome with
    | noCallHandle => exact h
    | noEndpoint =>
      refine ⟨h.count, fun hunbound => ?_, hstays, h.binds, hwake⟩
      show b.calls.length ≤ 1
      rw [hfree hunbound]
      exact Nat.zero_le 1
    | ok =>
      refine ⟨?_, fun hunbound => ?_, fun c hc hbrdcst hserver => ?_, fun c hc hbinds => ?_, hwake⟩
      · show b.callsInProgress + 1 = b.calls.length + 1
        rw [h.count]
      · show b.calls.length + 1 ≤ 1
        rw [hfree hunbound]
        exact le_refl 1
      · rcases List.mem_cons.mp hc with rfl | hc
        · exact hserver
        · exact hstays c hc hbrdcst hserver
      · rcases List.mem_cons.mp hc with rfl | hc
        · cases hbinds
        · exact h.binds c hc hbinds

theorem takeWaiter_eq_some (htake : takeWaiter b thread = some (w, b')) :
    w ∈ b.waiters ∧ b' = { b with waiters := b.waiters.filter fun w => w.thread ≠ thread } := by
  rw [takeWaiter, Option.map_eq_some_iff] at htake
  obtain ⟨w', hfind, heq⟩ := htake
  obtain ⟨rfl, rfl⟩ := Prod.mk.inj heq
  exact ⟨List.mem_of_find?_eq_some hfind, rfl⟩

theorem BindingOk.takeWaiter (h : BindingOk b) (htake : takeWaiter b thread = some (w, b')) :
    BindingOk b' := by
  obtain ⟨-, rfl⟩ := takeWaiter_eq_some htake
  exact ⟨h.count, h.exclusive, h.broadcast, h.binds,
    fun w hw => h.wake w (List.mem_of_mem_filter hw)⟩

/-- The calls change, but neither in number nor in their options. -/
theorem BindingOk.setCall (h : BindingOk b) (thread : ℕ) {f : BindingCall → BindingCall}
    (hoptions : ∀ c, (f c).options = c.options)
    (hserver : ∀ c, (f c).serverBound = false → c.serverBound = false)
    (hbinds : ∀ c, c ∈ b.calls → (f c).binds = true → (f c).serverBound = true) :
    BindingOk (setCall b thread f) := by
  have hmem : ∀ c' ∈ (Dg.setCall b thread f).calls, ∃ c ∈ b.calls, c' = f c ∨ c' = c := by
    intro c' hc'
    obtain ⟨c, hc, rfl⟩ := List.mem_map.mp hc'
    refine ⟨c, hc, ?_⟩
    split
    · exact Or.inl rfl
    · exact Or.inr rfl
  refine ⟨?_, fun hbound => ?_, fun c' hc' hbrdcst hs => ?_, fun c' hc' hb => ?_, h.wake⟩
  · exact h.count.trans (List.length_map _).symm
  · exact (List.length_map _).trans_le (h.exclusive hbound)
  · obtain ⟨c, hc, rfl | rfl⟩ := hmem c' hc'
    · exact h.broadcast c hc (hoptions c ▸ hbrdcst) (hserver c hs)
    · exact h.broadcast c' hc hbrdcst hs
  · obtain ⟨c, hc, rfl | rfl⟩ := hmem c' hc'
    · exact hbinds c hc hb
    · exact h.binds c' hc hb

theorem bindingStep_spec {op : BindingOp} (h : BindingOk b) (hstep : bindingStep b op = some b') :
    BindingOk b' := by
  cases op with
  | callStart thread options outcome =>
    rw [bindingStep] at hstep
    split at hstep
    · cases hstep
    · cases hstep
      exact h.enter _ outcome
  | wake thread outcome =>
    obtain ⟨⟨w, b₁⟩, htake, hstep⟩ := Option.bind_eq_some_iff.mp hstep
    dsimp only at hstep
    split at hstep <;> cases hstep
    exact (h.takeWaiter htake).enter w outcome
  | cancel thread timeout outcome =>
    obtain ⟨⟨w, b₁⟩, htake, hstep⟩ := Option.bind_eq_some_iff.mp hstep
    have h₁ := h.takeWaiter htake
    cases timeout with
    | zero =>
      cases hstep
      exact h₁
    | finite =>
      cases hstep
      exact h₁.enter _ outcome
    | infinite =>
      cases hstep
      exact h₁.enter w outcome
  | timeOut thread hasTimedOut outcome =>
    obtain ⟨⟨w, b₁⟩, htake, hstep⟩ := Option.bind_eq_some_iff.mp hstep
    have h₁ := h.takeWaiter htake
    dsimp only at hstep
    split at hstep
    · cases hstep
    · split at hstep
      · cases hstep
        exact h₁
      · cases hstep
        exact h₁.enter w outcome
  | transceive thread responded =>
    rw [bindingStep] at hstep
    split at hstep <;> cases hstep
    refine h.setCall thread (fun c => ?_) (fun c hserver => ?_) fun c hc hbinds => ?_
    · rw [transceived]
      split <;> rfl
    · rw [transceived] at hserver
      split at hserver
      · exact hserver
      · exact (Bool.or_eq_false_iff.mp hserver).1
    · rw [transceived] at hbinds ⊢
      split
      · rename_i hmaybe
        rw [if_pos hmaybe] at hbinds
        exact h.binds c hc hbinds
      · rename_i hmaybe
        rw [if_neg hmaybe] at hbinds
        exact (Bool.and_eq_true_iff.mp hbinds).2
  | bind thread =>
    rw [bindingStep] at hstep
    split at hstep
    · rename_i hany
      cases hstep
      obtain ⟨c, hc, hcbinds⟩ := List.any_eq_true.mp hany
      have hserver : c.serverBound = true := h.binds c hc (Bool.and_eq_true_iff.mp hcbinds).2
      have h₁ := h.setCall thread (f := fun c => { c with binds := false }) (fun _ => rfl)
        (fun _ hs => hs) fun _ _ hb => absurd hb Bool.false_ne_true
      refine ⟨h₁.count, nofun, fun c' hc' hbrdcst hs => ?_, h₁.binds, ?_⟩
      · -- a broadcast without a response would be the only call
        have hunbound := h₁.broadcast c' hc' hbrdcst hs
        have hone := h.exclusive hunbound
        obtain ⟨c₁, hc₁, heq⟩ := List.mem_map.mp hc'
        have hsame : c₁ = c := by
          obtain ⟨x, hx⟩ := List.length_eq_one_iff.mp
            (le_antisymm hone (List.length_pos_of_mem hc))
          rw [hx, List.mem_singleton] at hc hc₁
          rw [hc, hc₁]
        have hs₁ : c'.serverBound = c.serverBound := by
          rw [← heq, hsame]
          split <;> rfl
        rw [hs₁, hserver] at hs
        cases hs
      · intro w hw hwoken
        obtain ⟨w₁, -, rfl⟩ := List.mem_map.mp hw
        cases hwoken
    · cases hstep
  | callEnd thread =>
    rw [bindingStep] at hstep
    split at hstep
    · rename_i hcond
      cases hstep
      obtain ⟨c, hc, hthread⟩ := List.any_eq_true.mp hcond.1
      have hlen : (b.calls.eraseP fun c => c.thread = thread).length = b.calls.length - 1 :=
        List.length_eraseP_of_mem hc hthread
      refine ⟨?_, fun hbound => ?_, fun c' hc' => h.broadcast c' (List.mem_of_mem_eraseP hc'),
        fun c' hc' => h.binds c' (List.mem_of_mem_eraseP hc'), h.wake⟩
      · show b.callsInProgress - 1 = (b.calls.eraseP _).length
        rw [hlen, h.count]
      · show (b.calls.eraseP _).length ≤ 1
        rw [hlen]
        exact (Nat.sub_le _ _).trans (h.exclusive hbound)
    · cases hstep

/-! ### What steps keep that meet a condition -/

/-- While the handle is not bound or a broadcast is in progress there is at most one call, and a
thread sleeps only while it must wait. -/
structure Serialized (b : BindingRep) : Prop where
  exclusive : (b.boundServerInstance = false ∨ ∃ c ∈ b.calls, c.options.brdcst = true) →
    b.calls.length ≤ 1
  count : b.callsInProgress = b.calls.length
  wake : ∀ w ∈ b.waiters, w.woken = false → mustWait b w.options = true

/-- No call is started beside a broadcast. -/
def StartOk (b : BindingRep) (options : CallOptions) (outcome : StartOutcome) : Prop :=
  outcome = .ok → mustWait b options = false → ∀ c ∈ b.calls, c.options.brdcst = false

/-- The condition on a step: no call is started beside a broadcast, and the last call does not
end while a thread sleeps. -/
def BindingOpOk (b : BindingRep) : BindingOp → Prop
  | .callStart _ options outcome => StartOk b options outcome
  | .wake thread outcome => ∀ w ∈ b.waiters, w.thread = thread → StartOk b w.options outcome
  | .cancel thread timeout outcome =>
    match timeout with
    | .zero => True
    | _ => ∀ w ∈ b.waiters, w.thread = thread → StartOk b w.options outcome
  | .timeOut thread hasTimedOut outcome =>
    hasTimedOut = false → ∀ w ∈ b.waiters, w.thread = thread → StartOk b w.options outcome
  | .callEnd _ => b.callsInProgress = 1 → ∀ w ∈ b.waiters, w.woken = true
  | _ => True

instance (options : CallOptions) : Decidable (StartOk b options outcome) := by
  unfold StartOk
  infer_instance

instance (op : BindingOp) : Decidable (BindingOpOk b op) := by
  cases op with
  | cancel thread timeout outcome => cases timeout <;> unfold BindingOpOk <;> infer_instance
  | _ => unfold BindingOpOk; infer_instance

theorem Serialized.enter (hs : Serialized b) (h : BindingOk b)
    (hstart : StartOk b w.options outcome) : Serialized (enter b w outcome) := by
  rw [Dg.enter]
  by_cases hwait : mustWait b w.options = true
  · rw [if_pos hwait]
    refine ⟨hs.exclusive, hs.count, fun w' hw' hwoken => ?_⟩
    rcases List.mem_cons.mp hw' with rfl | hw'
    · exact hwait
    · exact hs.wake w' hw' hwoken
  · rw [if_neg hwait]
    have hfree := h.calls_eq_nil hwait
    have hbroadcast : ∀ c ∈ b.calls, c.options.brdcst = true → b.calls.length ≤ 1 :=
      fun c hc hbrdcst => hs.exclusive (Or.inr ⟨c, hc, hbrdcst⟩)
    -- a thread that sleeps must still wait if the handle is unbound or the call started
    have hwake : ∀ w' ∈ b.waiters, w'.woken = false →
        ((b.boundServerInstance && !w.options.brdcst) = false ∨ w'.options.brdcst = true) ∧
          b.callsInProgress ≠ 0 := by
      intro w' hw' hwoken
      obtain ⟨hbound, hcalls⟩ := mustWait_iff.mp (hs.wake w' hw' hwoken)
      refine ⟨hbound.imp_left fun hbound => ?_, hcalls⟩
      rw [hbound]
      rfl
    cases outcome with
    | noCallHandle => exact hs
    | noEndpoint =>
      refine ⟨?_, hs.count, fun w' hw' hwoken => mustWait_iff.mpr (hwake w' hw' hwoken)⟩
      rintro (hunbound | ⟨c, hc, hbrdcst⟩)
      · show b.calls.length ≤ 1
        rw [hfree hunbound]
        exact Nat.zero_le 1
      · exact hbroadcast c hc hbrdcst
    | ok =>
      refine ⟨?_, congrArg (· + 1) hs.count, fun w' hw' hwoken =>
        mustWait_iff.mpr ⟨(hwake w' hw' hwoken).1, Nat.succ_ne_zero _⟩⟩
      have hone : (b.boundServerInstance && !w.options.brdcst) = false → b.calls.length + 1 ≤ 1 := by
        intro hunbound
        rw [hfree hunbound]
        exact le_refl 1
      rintro (hunbound | ⟨c, hc, hbrdcst⟩)
      · exact hone hunbound
      · rcases List.mem_cons.mp hc with rfl | hc
        · refine hone ?_
          have hbrdcst' : w.options.brdcst = true := hbrdcst
          rw [hbrdcst']
          exact Bool.and_false _
        · have hnone := hstart rfl (Bool.eq_false_iff.mpr hwait) c hc
          rw [hnone] at hbrdcst
          cases hbrdcst

theorem Serialized.takeWaiter (hs : Serialized b) (htake : takeWaiter b thread = some (w, b')) :
    Serialized b' := by
  obtain ⟨-, rfl⟩ := takeWaiter_eq_some htake
  exact ⟨hs.exclusive, hs.count, fun w hw => hs.wake w (List.mem_of_mem_filter hw)⟩

theorem takeWaiter_startOk (htake : takeWaiter b thread = some (w, b'))
    (hstart : ∀ w ∈ b.waiters, w.thread = thread → StartOk b w.options outcome) :
    StartOk b' w.options outcome := by
  obtain ⟨hw, rfl⟩ := takeWaiter_eq_some htake
  refine hstart w hw ?_
  rw [Dg.takeWaiter, Option.map_eq_some_iff] at htake
  obtain ⟨w', hfind, heq⟩ := htake
  obtain ⟨rfl, -⟩ := Prod.mk.inj heq
  simpa using List.find?_some hfind

theorem Serialized.setCall (hs : Serialized b) (thread : ℕ) {f : BindingCall → BindingCall}
    (hoptions : ∀ c, (f c).options = c.options) : Serialized (setCall b thread f) := by
  refine ⟨fun h => ?_, hs.count.trans (List.length_map _).symm, hs.wake⟩
  refine (List.length_map _).trans_le (hs.exclusive (h.imp_right ?_))
  rintro ⟨c', hc', hbrdcst⟩
  obtain ⟨c, hc, rfl⟩ := List.mem_map.mp hc'
  refine ⟨c, hc, ?_⟩
  split at hbrdcst
  · exact hoptions c ▸ hbrdcst
  · exact hbrdcst

theorem bindingStep_serialized {op : BindingOp} (h : BindingOk b) (hs : Serialized b)
    (hok : BindingOpOk b op) (hstep : bindingStep b op = some b') : Serialized b' := by
  cases op with
  | callStart thread options outcome =>
    rw [bindingStep] at hstep
    split at hstep
    · cases hstep
    · cases hstep
      exact hs.enter h hok
  | wake thread outcome =>
    obtain ⟨⟨w, b₁⟩, htake, hstep⟩ := Option.bind_eq_some_iff.mp hstep
    dsimp only at hstep
    split at hstep <;> cases hstep
    exact (hs.takeWaiter htake).enter (h.takeWaiter htake) (takeWaiter_startOk htake hok)
  | cancel thread timeout outcome =>
    obtain ⟨⟨w, b₁⟩, htake, hstep⟩ := Option.bind_eq_some_iff.mp hstep
    have h₁ := h.takeWaiter htake
    have hs₁ := hs.takeWaiter htake
    cases timeout with
    | zero =>
      cases hstep
      exact hs₁
    | finite =>
      have hstart := takeWaiter_startOk htake hok
      cases hstep
      exact hs₁.enter h₁ hstart
    | infinite =>
      cases hstep
      exact hs₁.enter h₁ (takeWaiter_startOk htake hok)
  | timeOut thread hasTimedOut outcome =>
    obtain ⟨⟨w, b₁⟩, htake, hstep⟩ := Option.bind_eq_some_iff.mp hstep
    dsimp only at hstep
    split at hstep
    · cases hstep
    · split at hstep
      · cases hstep
        exact hs.takeWaiter htake
      · rename_i htimed
        cases hstep
        exact (hs.takeWaiter htake).enter (h.takeWaiter htake)
          (takeWaiter_startOk htake (hok (Bool.eq_false_iff.mpr htimed)))
  | transceive thread responded =>
    rw [bindingStep] at hstep
    split at hstep <;> cases hstep
    refine hs.setCall thread fun c => ?_
    rw [transceived]
    split <;> rfl
  | bind thread =>
    rw [bindingStep] at hstep
    split at hstep <;> cases hstep
    have hs₁ := hs.setCall thread (f := fun c => { c with binds := false }) fun _ => rfl
    refine ⟨fun hbound => hs₁.exclusive (Or.inr (hbound.resolve_left nofun)), hs₁.count, ?_⟩
    intro w hw hwoken
    obtain ⟨w₁, -, rfl⟩ := List.mem_map.mp hw
    cases hwoken
  | callEnd thread =>
    rw [bindingStep] at hstep
    split at hstep
    · rename_i hcond
      cases hstep
      obtain ⟨c, hc, hthread⟩ := List.any_eq_true.mp hcond.1
      have hlen : (b.calls.eraseP fun c => c.thread = thread).length = b.calls.length - 1 :=
        List.length_eraseP_of_mem hc hthread
      refine ⟨fun hbound => ?_, ?_, fun w hw hwoken => ?_⟩
      · refine hlen.trans_le ((Nat.sub_le _ _).trans (hs.exclusive (hbound.imp_right ?_)))
        rintro ⟨c', hc', hbrdcst⟩
        exact ⟨c', List.mem_of_mem_eraseP hc', hbrdcst⟩
      · show b.callsInProgress - 1 = (b.calls.eraseP _).length
        rw [hlen, hs.count]
      · obtain ⟨hbound, hcalls⟩ := mustWait_iff.mp (hs.wake w hw hwoken)
        refine mustWait_iff.mpr ⟨hbound, fun hzero => ?_⟩
        -- the last call has ended, so the thread was woken
        have hone : b.callsInProgress = 1 := by
          have hzero' : b.callsInProgress - 1 = 0 := hzero
          omega
        have hwoken' := hok hone w hw
        rw [hwoken'] at hwoken
        cases hwoken
    · cases hstep

/-! ### Runs -/

theorem bindingOk_new (bound : Bool) : BindingOk (.new bound) :=
  ⟨rfl, fun _ => Nat.zero_le 1, nofun, nofun, nofun⟩

theorem serialized_new (bound : Bool) : Serialized (.new bound) :=
  ⟨fun _ => Nat.zero_le 1, rfl, nofun⟩

/-- Calls are serialized in every state of a run whose steps all meet the condition. -/
theorem serialized_of_along (bound : Bool) (ops : List BindingOp) (b : BindingRep)
    (hops : Along bindingStep BindingOpOk (.new bound) ops)
    (hrun : exec bindingStep (.new bound) ops = some b) : Serialized b := by
  have hinv := exec_invariant (I := fun b => BindingOk b ∧ Serialized b)
    (fun b op b' hb hok hstep =>
      ⟨bindingStep_spec hb.1 hstep, bindingStep_serialized hb.1 hb.2 hok hstep⟩)
    ⟨bindingOk_new bound, serialized_new bound⟩ hops hrun
  exact hinv.2

def plainCall : CallOptions := ⟨false, false⟩
def maybeCall : CallOptions := ⟨false, true⟩
def brdcstCall : CallOptions := ⟨true, false⟩

/-- A second call waits until the first one has bound the handle. -/
def serializedOps : List BindingOp :=
  [.callStart 0 plainCall .ok, .callStart 1 plainCall .ok, .transceive 0 true, .bind 0,
    .callEnd 0, .wake 1 .ok]

theorem serialized_of_along_serializedOps :
    Along bindingStep BindingOpOk (.new false) serializedOps ∧
      ∃ b, exec bindingStep (.new false) serializedOps = some b ∧ Serialized b := by
  have hops : Along bindingStep BindingOpOk (.new false) serializedOps := by decide
  refine ⟨hops, _, rfl, serialized_of_along false serializedOps _ hops rfl⟩

/-- A thread sleeps on when the call has ended that it waits for, and a call is started beside a
broadcast that had its first response. -/
theorem not_serialized :
    (∃ b, exec bindingStep (.new false)
        [.callStart 0 maybeCall .ok, .callStart 1 plainCall .ok, .transceive 0 false, .callEnd 0]
          = some b ∧ ¬ Serialized b) ∧
      ∃ b, exec bindingStep (.new false)
        [.callStart 0 brdcstCall .ok, .transceive 0 true, .bind 0, .callStart 1 plainCall .ok]
          = some b ∧ ¬ Serialized b := by
  refine ⟨⟨_, rfl, fun hs => ?_⟩, ⟨_, rfl, fun hs => ?_⟩⟩
  · exact absurd (hs.wake _ List.mem_cons_self rfl) (by decide)
  · exact absurd (hs.exclusive (Or.inr ⟨_, List.mem_cons_of_mem _ List.mem_cons_self, rfl⟩))
      (by decide)

end Dg
