/-
Whether a server call handle is recycled while its call is still running.

A request may carry any sequence number, any flags and any hint, and it may come between any two
steps of the executors.  Two properties tie the handles to the executors: a handle that an entry
holds is not orphaned, and an executor that is not done has the handle's executor reference
(`Tended`).  They are kept by every step whose request finds a handle that is not in progress
(`Spared`), and then the handle that is taken over, or given an executor, is free.

* `Tended.endOfCall`, `Tended.execStep` — the executors;
* `Tended.orphan` — a call is orphaned;
* `Tended.newCall`, `Tended.acceptPkt` — a request is accepted;
* `notRecycled_iff_spared` — the runs.
-/
import FreeDce.Dg.RequestShape

namespace Dg

open Runs

variable {s s' s'' : Server} {e i k : ℕ} {hdr : PktHdr} {cfg : ServerConfig}

/-! ### Events -/

/-- What can happen to the server, whatever the clients send.  A who-are-you callback is answered
with any number. -/
inductive AnyEvent
  | request (pkt : Pkt) (env : CallEnv) (invoke : InvokeResult)
  | ack (hdr : PktHdr)
  | quit (hdr : PktHdr)
  | timer (k : ℕ) (aged : Bool)
  | signalFailure (k : ℕ) (st : Status)
  | exec (e : ℕ) (answer : BitVec 32) (ev : ExecEvent)

def anyStep (cfg : ServerConfig) (s : Server) : AnyEvent → Option Server
  | .request pkt env invoke => doRequest cfg s pkt env invoke
  | .ack hdr => some (doAck cfg s hdr)
  | .quit hdr => doQuit cfg s hdr
  | .timer k aged => scallTimer s k aged
  | .signalFailure k st => some (s.updScall k (Dg.signalFailure st))
  | .exec e answer ev => do
    let ex ← s.execs[e]?
    execStep answer s e ex.scall ex.pc ev

/-! ### What is promised -/

/-- The handle belongs to the entry, no executor refers to it, and its call is over. -/
structure Free (s : Server) (i k : ℕ) : Prop where
  attached : ∃ scte, s.sct[i]? = some scte ∧ k ∈ scte.handles
  scall : ∃ sc, s.scalls[k]? = some sc ∧ sc.scte = some i ∧ sc.hasCallExecutorRef = false ∧
    (sc.state = .idle ∨ sc.state = .final)
  execs : ∀ ex ∈ s.execs, ex.scall = k → ex.pc = .done

/-- The entry and the handle with which `rpc__dg_do_request` reaches the reinitialisation of a
handle in `rpc__dg_sct_new_call`, in the state in which it does. -/
def recycled (cfg : ServerConfig) (s : Server) (hdr : PktHdr) : Option (Server × ℕ × ℕ) :=
  if svrChkSboot cfg hdr = false then none
  else do
    let (sct, i) := sctGet cfg s.sct hdr.ahint.toNat hdr.seq
    let s := { s with sct := sct }
    let scte ← s.sct[i]?
    match requestDisposition s scte hdr with
    | (_, .old) | (_, .ping) | (_, .nonIdemRerun) | (_, .curCall) => none
    | (scall, .orphanCurCall) => do
      let k ← scall
      let s ← scallOrphanCall s k
      if hdr.seqMaybe then some (s, i, k) else none
    | (scall, .newCall) => (sctReusedScall s scte scall hdr).map fun k => (s, i, k)

/-- A request takes over a free handle only, and gives an executor only to a call that has none and
is not orphaned. -/
def NotRecycled (cfg : ServerConfig) (s : Server) : AnyEvent → Prop
  | .request pkt env invoke =>
    (∀ t i k, recycled cfg s pkt.hdr = some (t, i, k) → Free t i k) ∧
      ∀ s', doRequest cfg s pkt env invoke = some s' → ∀ ex, s'.execs[s.execs.length]? = some ex →
        (∀ ex' ∈ s.execs, ex'.scall = ex.scall → ex'.pc = .done) ∧
          ∀ sc, s.scalls[ex.scall]? = some sc → sc.state ≠ .orphan
  | _ => True

/-! ### When it holds -/

/-- The call of the handle has not come to an end. -/
def inProgress (s : Server) (k : ℕ) : Bool :=
  (s.scalls[k]?).any fun sc => sc.state = .init ∨ sc.state = .recv ∨ sc.state = .xmit

/-- A maybe request with another number than the entry's finds a handle whose call is over; and if
no handle is found, the cached one is not in progress, unless the request leaves it alone. -/
def SparedBy (s : Server) (scte : SctElt) (hdr : PktHdr) : Prop :=
  match sctInqScall s scte hdr.seq with
  | some k => hdr.seqMaybe = true → hdr.seq ≠ scte.highSeq → inProgress s k = false
  | none => ∀ k ∈ scte.scall, doRequestCommon scte.highSeq .idle hdr = .newCall →
      ¬ (hdr.seqMaybe = true ∧ (s.scalls[k]?).any fun sc => Serial.Lt hdr.seq sc.callSeq) →
      inProgress s k = false

def Spared (cfg : ServerConfig) (s : Server) : AnyEvent → Prop
  | .request pkt _ _ => svrChkSboot cfg pkt.hdr = true →
      ∀ scte ∈ (lookedUp cfg s pkt.hdr).sct[(sctGet cfg s.sct pkt.hdr.ahint.toNat pkt.hdr.seq).2]?,
        SparedBy s scte pkt.hdr
  | _ => True

/-! ### The invariant -/

structure Tended (s : Server) : Prop where
  linked : s.Linked
  orphan : ∀ (k : ℕ) (sc : Scall), s.scalls[k]? = some sc → sc.state = .orphan → sc.scte = none
  rest : ∀ (k : ℕ) (sc : Scall), s.scalls[k]? = some sc → sc.state = .idle ∨ sc.state = .final →
    sc.hasCallExecutorRef = false
  live : ∀ (e : ℕ) (ex : Executor), s.execs[e]? = some ex → ex.pc ≠ .done →
    ∃ sc, s.scalls[ex.scall]? = some sc ∧ sc.hasCallExecutorRef = true ∧ sc.callIsSetup = true
  single : ∀ (e e' : ℕ) (ex ex' : Executor), s.execs[e]? = some ex → s.execs[e']? = some ex' →
    ex.pc ≠ .done → ex'.pc ≠ .done → ex.scall = ex'.scall → e = e'

/-- A change that neither ends nor starts a call of the handle. -/
structure ScallMild (sc sc' : Scall) : Prop where
  scte : sc'.scte = sc.scte ∨ sc'.scte = none
  setup : sc'.callIsSetup = sc.callIsSetup
  ref : sc'.hasCallExecutorRef = sc.hasCallExecutorRef
  state : sc'.state = sc.state ∨ sc'.state = .xmit ∨ sc.state = .final ∧ sc'.state = .idle

theorem ScallMild.refl (sc : Scall) : ScallMild sc sc := ⟨.inl rfl, rfl, rfl, .inl rfl⟩

/-- No executor appears, and every handle changes mildly. -/
structure Mild (s s' : Server) : Prop where
  linked : s.Linked → s'.Linked
  length : s'.scalls.length = s.scalls.length
  scall : ∀ (k : ℕ) (sc' : Scall), s'.scalls[k]? = some sc' →
    ∃ sc, s.scalls[k]? = some sc ∧ ScallMild sc sc'
  exec : ∀ (e : ℕ) (ex' : Executor), s'.execs[e]? = some ex' → ex'.pc ≠ .done →
    ∃ ex, s.execs[e]? = some ex ∧ ex.scall = ex'.scall ∧ ex.pc ≠ .done

theorem Tended.mild (h : Tended s) (hm : Mild s s') : Tended s' where
  linked := hm.linked h.linked
  orphan k sc' hsc' hstate := by
    obtain ⟨sc, hsc, hmild⟩ := hm.scall k sc' hsc'
    rcases hmild.scte with heq | hnone
    · rw [heq]
      refine h.orphan k sc hsc ?_
      rcases hmild.state with hs | hs | ⟨-, hs⟩ <;> rw [hs] at hstate
      · exact hstate
      · cases hstate
      · cases hstate
    · exact hnone
  rest k sc' hsc' hstate := by
    obtain ⟨sc, hsc, hmild⟩ := hm.scall k sc' hsc'
    rw [hmild.ref]
    refine h.rest k sc hsc ?_
    rcases hmild.state with hs | hs | ⟨hs, -⟩
    · rwa [hs] at hstate
    · rw [hs] at hstate
      rcases hstate with hstate | hstate <;> cases hstate
    · exact .inr hs
  live e ex' hex' hpc := by
    obtain ⟨ex, hex, hscall, hpc₀⟩ := hm.exec e ex' hex' hpc
    obtain ⟨sc, hsc, href, hsetup⟩ := h.live e ex hex hpc₀
    have hlt : ex.scall < s'.scalls.length := by
      rw [hm.length]
      exact (List.getElem?_eq_some_iff.mp hsc).1
    obtain ⟨sc', hsc'⟩ : ∃ sc', s'.scalls[ex.scall]? = some sc' := ⟨_, List.getElem?_eq_getElem hlt⟩
    obtain ⟨sc₀, hsc₀, hmild⟩ := hm.scall _ sc' hsc'
    obtain rfl : sc = sc₀ := Option.some_inj.mp (hsc.symm.trans hsc₀)
    rw [← hscall]
    exact ⟨sc', hsc', hmild.ref.trans href, hmild.setup.trans hsetup⟩
  single e e' ex ex' hex hex' hpc hpc' heq := by
    obtain ⟨ex₀, hex₀, hscall, hpc₀⟩ := hm.exec e ex hex hpc
    obtain ⟨ex₁, hex₁, hscall', hpc₁⟩ := hm.exec e' ex' hex' hpc'
    exact h.single e e' ex₀ ex₁ hex₀ hex₁ hpc₀ hpc₁ (hscall.trans (heq.trans hscall'.symm))

theorem mild_updScall {f : Scall → Scall}
    (hf : ∀ sc, s.scalls[k]? = some sc → ScallMild sc (f sc) ∧ (f sc).scte = sc.scte) :
    Mild s (s.updScall k f) where
  linked := linked_updScall fun sc hsc => (hf sc hsc).2
  length := List.length_modify ..
  scall j sc' hsc' := by
    obtain ⟨sc, hsc, rfl⟩ := getElem?_updScall hsc'
    refine ⟨sc, hsc, ?_⟩
    split
    · next hkj => exact (hf sc (hkj ▸ hsc)).1
    · exact ScallMild.refl sc
  exec _ ex' hex' hpc := ⟨ex', hex', rfl, hpc⟩

/-- A change of other fields. -/
theorem mild_updScall_of_eq {f : Scall → Scall} (hf : ∀ sc, (f sc).scte = sc.scte ∧
    (f sc).callIsSetup = sc.callIsSetup ∧ (f sc).hasCallExecutorRef = sc.hasCallExecutorRef ∧
    (f sc).state = sc.state) : Mild s (s.updScall k f) :=
  mild_updScall fun sc _ =>
    let ⟨hscte, hsetup, href, hstate⟩ := hf sc
    ⟨⟨.inl hscte, hsetup, href, .inl hstate⟩, hscte⟩

theorem mild_updScte {f : SctElt → SctElt} (hf : ∀ scte, (f scte).handles = scte.handles) :
    Mild s (s.updScte i f) :=
  ⟨linked_updScte hf, rfl, fun _ sc hsc => ⟨sc, hsc, ScallMild.refl sc⟩,
    fun _ ex hex hpc => ⟨ex, hex, rfl, hpc⟩⟩

theorem getElem?_setPc {pc : ExecPc} {j : ℕ} {ex' : Executor}
    (h : (s.setPc e pc).execs[j]? = some ex') :
    ∃ ex, s.execs[j]? = some ex ∧ ex' = if e = j then { ex with pc := pc } else ex := by
  rw [Server.setPc, List.getElem?_modify, Option.map_eq_map, Option.map_eq_some_iff] at h
  obtain ⟨ex, hex, rfl⟩ := h
  exact ⟨ex, hex, rfl⟩

/-- An executor goes on. -/
theorem mild_setPc (pc : ExecPc) {ex : Executor} (hex : s.execs[e]? = some ex)
    (hpc : ex.pc ≠ .done) : Mild s (s.setPc e pc) := by
  refine ⟨fun hl => ⟨hl.scte, hl.nodup⟩, rfl, fun _ sc hsc => ⟨sc, hsc, ScallMild.refl sc⟩, ?_⟩
  intro j ex' hex' hpc'
  obtain ⟨ex₀, hex₀, rfl⟩ := getElem?_setPc hex'
  by_cases hej : e = j
  · obtain rfl : ex = ex₀ := Option.some_inj.mp (hex.symm.trans (hej ▸ hex₀))
    refine ⟨ex, hex₀, ?_, hpc⟩
    rw [if_pos hej]
  · rw [if_neg hej] at hpc' ⊢
    exact ⟨ex₀, hex₀, rfl, hpc'⟩

/-! ### The executors -/

variable {ex : Executor} {sc : Scall}

/-- The executor gives up its reference when it is done. -/
theorem Tended.endOfCall (h : Tended s) (hex : s.execs[e]? = some ex) (hpc : ex.pc ≠ .done)
    (idem sent frag : Bool) : Tended (endOfCall s e ex.scall idem sent frag) := by
  have hkeep : ∀ (j : ℕ) (ex' : Executor),
      (Dg.endOfCall s e ex.scall idem sent frag).execs[j]? = some ex' →
      ex'.pc ≠ .done → s.execs[j]? = some ex' ∧ e ≠ j := by
    intro j ex' hex' hpc'
    obtain ⟨ex₀, hex₀, rfl⟩ := getElem?_setPc (s := s) hex'
    split at hpc'
    · exact absurd rfl hpc'
    · next hne =>
      rw [if_neg hne]
      exact ⟨hex₀, hne⟩
  have hscall : ∀ (j : ℕ) (sc' : Scall),
      (Dg.endOfCall s e ex.scall idem sent frag).scalls[j]? = some sc' →
      ∃ sc, s.scalls[j]? = some sc ∧ sc'.scte = sc.scte ∧
        (ex.scall = j → sc'.hasCallExecutorRef = false ∧
          (sc'.state = .orphan → sc.state = .orphan)) ∧ (ex.scall ≠ j → sc' = sc) := by
    intro j sc' hsc'
    obtain ⟨sc, hsc, rfl⟩ := getElem?_updScall (s := s.setPc e .done) hsc'
    refine ⟨sc, hsc, ?_, fun heq => ?_, fun hne => if_neg hne⟩
    · split <;> rfl
    · rw [if_pos heq]
      refine ⟨rfl, fun horphan => ?_⟩
      dsimp only at horphan
      split at horphan
      · cases horphan
      · split at horphan
        · next hst => exact hst
        · cases horphan
  refine ⟨tame_endOfCall.linked h.linked, fun j sc' hsc' hst => ?_, fun j sc' hsc' hst => ?_,
    fun j ex' hex' hpc' => ?_, fun j j' ex' ex'' hex' hex'' hpc' hpc'' heq => ?_⟩
  · obtain ⟨sc, hsc, hscte, hself, hother⟩ := hscall j sc' hsc'
    rw [hscte]
    by_cases hj : ex.scall = j
    · exact h.orphan j sc hsc ((hself hj).2 hst)
    · rw [hother hj] at hst
      exact h.orphan j sc hsc hst
  · obtain ⟨sc, hsc, -, hself, hother⟩ := hscall j sc' hsc'
    by_cases hj : ex.scall = j
    · exact (hself hj).1
    · rw [hother hj] at hst ⊢
      exact h.rest j sc hsc hst
  · obtain ⟨hex₀, hne⟩ := hkeep j ex' hex' hpc'
    obtain ⟨sc, hsc, href, hsetup⟩ := h.live j ex' hex₀ hpc'
    have hscall' : ex.scall ≠ ex'.scall := fun heq => hne (h.single e j ex ex' hex hex₀ hpc hpc' heq)
    refine ⟨sc, ?_, href, hsetup⟩
    rw [Dg.endOfCall, Server.updScall, List.getElem?_modify]
    simp only [hscall', if_false, Option.map_eq_map, Option.map_id']
    exact hsc
  · exact h.single j j' ex' ex'' (hkeep j ex' hex' hpc').1 (hkeep j' ex'' hex'' hpc'').1 hpc' hpc''
      heq

theorem Tended.afterCallToStub (h : Tended s) (hex : s.execs[e]? = some ex) (hpc : ex.pc ≠ .done)
    (hdr : PktHdr) (ending : Ending) : Tended (afterCallToStub s e ex.scall hdr ending) := by
  rw [Dg.afterCallToStub]
  split
  · exact h.endOfCall hex hpc _ _ _
  · have hrq : Tended (s.updScall ex.scall fun sc => { sc with rq := recvqFree sc.rq }) :=
      h.mild (mild_updScall_of_eq fun _ => ⟨rfl, rfl, rfl, rfl⟩)
    exact hrq.endOfCall hex hpc _ _ _

theorem Tended.dispatch (h : Tended s) (hex : s.execs[e]? = some ex) (hpc : ex.pc ≠ .done)
    (hdr : PktHdr) : Tended (dispatch s e k hdr) := by
  have hrq : Tended (s.updScall k fun sc => { sc with rq := { sc.rq with isWayValidated := true } }) :=
    h.mild (mild_updScall_of_eq fun _ => ⟨rfl, rfl, rfl, rfl⟩)
  have hstub := hrq.mild (mild_setPc (.stub hdr) hex hpc)
  exact ⟨⟨hstub.linked.scte, hstub.linked.nodup⟩, hstub.orphan, hstub.rest, hstub.live,
    hstub.single⟩

theorem Tended.execStart (h : Tended s) (hex : s.execs[e]? = some ex) (hpc : ex.pc ≠ .done)
    {needResv : Bool} (hrun : execStart s e ex.scall needResv = some s') : Tended s' := by
  have hq : Tended (s.updScall ex.scall fun sc => { sc with callIsQueued := false }) :=
    h.mild (mild_updScall_of_eq fun _ => ⟨rfl, rfl, rfl, rfl⟩)
  rw [Dg.execStart] at hrun
  obtain ⟨sc, -, hrun⟩ := Option.bind_eq_some_iff.mp hrun
  split at hrun <;> cases hrun
  · exact hq.endOfCall hex hpc _ _ _
  · exact hq.mild (mild_setPc _ hex hpc)

theorem Tended.execResv (h : Tended s) (hex : s.execs[e]? = some ex) (hpc : ex.pc ≠ .done)
    (hrun : execResv s e ex.scall = some s') : Tended s' := by
  rw [Dg.execResv] at hrun
  obtain ⟨sc, -, hrun⟩ := Option.bind_eq_some_iff.mp hrun
  split at hrun <;> cases hrun
  · exact h.endOfCall hex hpc _ _ _
  · exact h.mild (mild_setPc _ hex hpc)

theorem Tended.execPrologue (h : Tended s) (hex : s.execs[e]? = some ex) (hpc : ex.pc ≠ .done)
    {force keyInfo : Bool} {reject : Option Ending}
    (hrun : execPrologue s e ex.scall hdr force keyInfo reject = some s') : Tended s' := by
  rw [Dg.execPrologue] at hrun
  obtain ⟨sc, -, hrun⟩ := Option.bind_eq_some_iff.mp hrun
  obtain ⟨i, -, hrun⟩ := Option.bind_eq_some_iff.mp hrun
  obtain ⟨scte, -, hrun⟩ := Option.bind_eq_some_iff.mp hrun
  cases reject with
  | some ending =>
    cases hrun
    exact h.afterCallToStub hex hpc _ _
  | none =>
    dsimp only at hrun
    have hgo : ∀ validated : Bool, (if validated = true then
        if sc.callSeq ≠ scte.highSeq then some (Dg.endOfCall s e ex.scall hdr.seqIdem false false)
        else some (Dg.dispatch s e ex.scall hdr)
      else some (s.setPc e (.wayLock hdr force))) = some s' → Tended s' := by
      intro validated hrun
      split at hrun
      · split at hrun <;> cases hrun
        · exact h.endOfCall hex hpc _ _ _
        · exact h.dispatch hex hpc _
      · cases hrun
        exact h.mild (mild_setPc _ hex hpc)
    split at hrun
    · split at hrun
      · exact hgo false hrun
      · obtain ⟨validated, -, hrun⟩ := Option.bind_eq_some_iff.mp hrun
        exact hgo validated hrun
    · split at hrun <;> cases hrun
      exact h.dispatch hex hpc _

theorem Tended.receive (h : Tended s) (rq : Recvq) :
    Tended (s.updScall k fun sc => { sc with rq := rq }) :=
  h.mild (mild_updScall_of_eq fun _ => ⟨rfl, rfl, rfl, rfl⟩)

theorem Tended.execReceive (h : Tended s) (hex : s.execs[e]? = some ex) (hpc : ex.pc ≠ .done)
    {auth : AuthCheck} {keyInfo : Bool} {reject : Option Ending}
    (hrun : execReceive s e ex.scall auth keyInfo reject = some s') : Tended s' := by
  rw [Dg.execReceive] at hrun
  obtain ⟨sc, -, hrun⟩ := Option.bind_eq_some_iff.mp hrun
  have hrq := h.receive (k := ex.scall) (callReceiveInt sc.status sc.state auth sc.rq).1
  dsimp only at hrun
  split at hrun
  · cases hrun
    exact hrq.endOfCall hex hpc _ _ _
  · cases hrun
    exact hrq
  · cases hrun
  · obtain ⟨hdr, -, hrun⟩ := Option.bind_eq_some_iff.mp hrun
    exact hrq.execPrologue hex hpc hrun
  · obtain ⟨hdr, -, hrun⟩ := Option.bind_eq_some_iff.mp hrun
    exact hrq.execPrologue hex hpc hrun

theorem Tended.execWayLock (h : Tended s) (hex : s.execs[e]? = some ex) (hpc : ex.pc ≠ .done)
    {force bindingOk : Bool} (hrun : execWayLock s e ex.scall hdr force bindingOk = some s') :
    Tended s' := by
  rw [Dg.execWayLock] at hrun
  obtain ⟨sc, -, hrun⟩ := Option.bind_eq_some_iff.mp hrun
  split at hrun
  · cases hrun
    exact h.endOfCall hex hpc _ _ _
  · obtain ⟨i, -, hrun⟩ := Option.bind_eq_some_iff.mp hrun
    obtain ⟨scte, -, hrun⟩ := Option.bind_eq_some_iff.mp hrun
    obtain ⟨validated, -, hrun⟩ := Option.bind_eq_some_iff.mp hrun
    split_ifs at hrun <;> cases hrun <;> exact h.mild (mild_setPc _ hex hpc)

theorem Tended.execWayAnswer (h : Tended s) (hex : s.execs[e]? = some ex) (hpc : ex.pc ≠ .done)
    {force : Bool} {answer : Option (BitVec 32)}
    (hrun : execWayAnswer s e hdr force i answer = some s') : Tended s' := by
  cases answer with
  | none =>
    cases hrun
    exact h.mild (mild_setPc _ hex hpc)
  | some seq =>
    obtain ⟨t, ht, rfl⟩ := Option.map_eq_some_iff.mp hrun
    rw [sctWayAnswer] at ht
    obtain ⟨scte, -, ht⟩ := Option.bind_eq_some_iff.mp ht
    have hraise : Tended (s.updScte i (wayRaise seq)) := h.mild (mild_updScte fun _ => rfl)
    dsimp only at ht
    cases hk : scte.scall with
    | some k =>
      rw [hk] at ht
      cases ht
      have hboot : Tended ((s.updScte i (wayRaise seq)).updScall k
          fun sc => { sc with clientNeedsSboot := false }) :=
        hraise.mild (mild_updScall_of_eq fun _ => ⟨rfl, rfl, rfl, rfl⟩)
      exact hboot.mild (mild_setPc _ hex hpc)
    | none =>
      rw [hk] at ht
      cases ht
      exact hraise.mild (mild_setPc _ hex hpc)

theorem Tended.execWayDone (h : Tended s) (hex : s.execs[e]? = some ex) (hpc : ex.pc ≠ .done)
    {force ok : Bool} {auth : AuthCheck} {reject : Option Ending} {ending : Ending}
    (hrun : execWayDone s e ex.scall hdr force ok auth reject ending = some s') : Tended s' := by
  rw [Dg.execWayDone] at hrun
  obtain ⟨sc, -, hrun⟩ := Option.bind_eq_some_iff.mp hrun
  have hrejected := h.afterCallToStub hex hpc hdr { ending with failed := true }
  have hrq := h.receive (k := ex.scall) (callReceiveInt sc.status sc.state auth sc.rq).1
  dsimp only at hrun
  split at hrun
  · cases hrun
    exact h.endOfCall hex hpc _ _ _
  split at hrun
  · cases hrun
    exact hrejected
  obtain ⟨i, -, hrun⟩ := Option.bind_eq_some_iff.mp hrun
  obtain ⟨scte, -, hrun⟩ := Option.bind_eq_some_iff.mp hrun
  split at hrun
  · cases hrun
    exact h.endOfCall hex hpc _ _ _
  split at hrun
  · cases hrun
    exact hrejected
  split at hrun
  · split at hrun
    · split at hrun <;> cases hrun
      exact hrq.dispatch hex hpc _
    · cases hrun
      exact hrejected
    · cases hrun
      exact hrejected
    · cases hrun
      exact hrq
    · cases hrun
  · cases hrun
    exact h.dispatch hex hpc _

theorem Tended.execStubTransmit (h : Tended s) : Tended (execStubTransmit s k) := by
  refine h.mild (mild_updScall fun sc _ => ?_)
  split
  · exact ⟨⟨.inl rfl, rfl, rfl, .inr (.inl rfl)⟩, rfl⟩
  · exact ⟨ScallMild.refl sc, rfl⟩

theorem Tended.execStubReturn (h : Tended s) (hex : s.execs[e]? = some ex) (hpc : ex.pc ≠ .done)
    {ending : Ending} (hrun : execStubReturn s e ex.scall hdr ending = some s') : Tended s' := by
  rw [Dg.execStubReturn] at hrun
  obtain ⟨sc, -, hrun⟩ := Option.bind_eq_some_iff.mp hrun
  split at hrun <;> cases hrun
  · exact h.endOfCall hex hpc _ _ _
  · exact h.afterCallToStub hex hpc _ _

theorem Tended.execStep (h : Tended s) (hex : s.execs[e]? = some ex) {answer : BitVec 32}
    {ev : ExecEvent} (hrun : execStep answer s e ex.scall ex.pc ev = some s') : Tended s' := by
  unfold Dg.execStep at hrun
  split at hrun
  · next hpc =>
    cases hrun
    exact h.mild (mild_setPc _ hex (by rw [hpc]; nofun))
  · next hpc => exact h.execStart hex (by rw [hpc]; nofun) hrun
  · next hpc => exact h.execResv hex (by rw [hpc]; nofun) hrun
  · next hpc => exact h.execReceive hex (by rw [hpc]; nofun) hrun
  · next hpc => exact h.execWayLock hex (by rw [hpc]; nofun) hrun
  · next hpc => exact h.execWayAnswer hex (by rw [hpc]; nofun) hrun
  · next hpc => exact h.execWayDone hex (by rw [hpc]; nofun) hrun
  · obtain ⟨sc, -, hrun⟩ := Option.bind_eq_some_iff.mp hrun
    cases hrun
    exact h.receive _
  · cases hrun
    exact h.execStubTransmit
  · next hpc => exact h.execStubReturn hex (by rw [hpc]; nofun) hrun
  · cases hrun

/-! ### Orphans, timers, acks and quits -/

theorem mild_scallUncache (hsc : s.scalls[k]? = some sc) : Mild s (scallUncache s k sc) := by
  have hlinked := (tame_scallUncache hsc).linked
  unfold scallUncache at *
  split at *
  · next i hi =>
    refine ⟨hlinked, List.length_modify .., fun j sc' hsc' => ?_, fun _ ex' hex' hpc =>
      ⟨ex', hex', rfl, hpc⟩⟩
    obtain ⟨sc₀, hsc₀, rfl⟩ := getElem?_updScall hsc'
    refine ⟨sc₀, hsc₀, ?_⟩
    split
    · exact ⟨.inr rfl, rfl, rfl, .inl rfl⟩
    · exact ScallMild.refl sc₀
  · exact ⟨id, rfl, fun _ sc hsc => ⟨sc, hsc, ScallMild.refl sc⟩,
      fun _ ex' hex' hpc => ⟨ex', hex', rfl, hpc⟩⟩

/-- An orphaned call keeps its executor's reference, unless the executor was still queued. -/
theorem Tended.orphanCall (h : Tended s) (hrun : scallOrphanCall s k = some s') : Tended s' := by
  have hlinked := (tame_scallOrphanCall hrun).linked h.linked
  rw [scallOrphanCall] at hrun
  obtain ⟨sc, hsc, hrun⟩ := Option.bind_eq_some_iff.mp hrun
  split at hrun
  · cases hrun
    exact h
  obtain ⟨i, -, hrun⟩ := Option.bind_eq_some_iff.mp hrun
  cases hrun
  have hkeep : ∀ (j : ℕ) (ex' : Executor), (s.execs.map fun ex =>
      if ex.scall = k ∧ ex.pc.isQueued = true then { ex with pc := .done } else ex)[j]? = some ex' →
      ex'.pc ≠ .done → s.execs[j]? = some ex' ∧ ¬ (ex'.scall = k ∧ ex'.pc.isQueued = true) := by
    intro j ex' hex' hpc'
    rw [List.getElem?_map, Option.map_eq_some_iff] at hex'
    obtain ⟨ex, hex, rfl⟩ := hex'
    split at hpc'
    · exact absurd rfl hpc'
    · next hnot =>
      rw [if_neg hnot]
      exact ⟨hex, hnot⟩
  refine ⟨hlinked, fun j sc' hsc' hst => ?_, fun j sc' hsc' hst => ?_, fun j ex' hex' hpc' => ?_,
    fun j j' ex' ex'' hex' hex'' hpc' hpc'' heq => ?_⟩
  · obtain ⟨sc₀, hsc₀, rfl⟩ := getElem?_updScall (s := s.updScte i (releaseScallFromScte k)) hsc'
    split at hst
    · next heq => rw [if_pos heq]
    · next hne =>
      rw [if_neg hne]
      exact h.orphan j sc₀ hsc₀ hst
  · obtain ⟨sc₀, hsc₀, rfl⟩ := getElem?_updScall (s := s.updScte i (releaseScallFromScte k)) hsc'
    split at hst
    · rcases hst with hst | hst <;> cases hst
    · next hne =>
      rw [if_neg hne]
      exact h.rest j sc₀ hsc₀ hst
  · obtain ⟨hex, hnot⟩ := hkeep j ex' hex' hpc'
    obtain ⟨sc₀, hsc₀, href, hsetup⟩ := h.live j ex' hex hpc'
    by_cases hk : k = ex'.scall
    · -- another executor of the handle cannot be on the queue
      have hqueued : isQueued (s.updScte i (releaseScallFromScte k)) k = false := by
        rw [Bool.eq_false_iff]
        intro hany
        obtain ⟨ex₁, hmem, hex₁⟩ := List.any_eq_true.mp hany
        rw [Bool.and_eq_true, decide_eq_true_eq] at hex₁
        obtain ⟨j₁, hj₁⟩ := List.mem_iff_getElem?.mp hmem
        have hlive : ex₁.pc ≠ .done := by
          intro hdone
          rw [hdone] at hex₁
          cases hex₁.2
        obtain rfl := h.single j₁ j ex₁ ex' hj₁ hex hlive hpc' (hex₁.1.trans hk)
        obtain rfl : ex₁ = ex' := Option.some_inj.mp (hj₁.symm.trans hex)
        exact hnot hex₁
      refine ⟨{ Dg.signalFailure .callOrphaned sc₀ with
        scte := none
        state := .orphan
        hasCallExecutorRef := sc₀.hasCallExecutorRef &&
          !isQueued (s.updScte i (releaseScallFromScte k)) k }, ?_, ?_, hsetup⟩
      · change (s.scalls.modify k _)[ex'.scall]? = some _
        rw [List.getElem?_modify, hsc₀]
        simp only [hk, if_true]
        rfl
      · simp only [hqueued, href, Bool.not_false, Bool.and_self]
    · refine ⟨sc₀, ?_, href, hsetup⟩
      change (s.scalls.modify k _)[ex'.scall]? = some _
      rw [List.getElem?_modify, hsc₀]
      simp only [hk, if_false]
      rfl
  · exact h.single j j' ex' ex'' (hkeep j ex' hex' hpc').1 (hkeep j' ex'' hex'' hpc'').1 hpc' hpc''
      heq

theorem Tended.scallTimer (h : Tended s) {aged : Bool} (hrun : scallTimer s k aged = some s') :
    Tended s' := by
  rw [Dg.scallTimer] at hrun
  obtain ⟨sc, hsc, hrun⟩ := Option.bind_eq_some_iff.mp hrun
  cases hstate : sc.state <;> rw [hstate] at hrun <;> dsimp only at hrun
  case init | xmit =>
    cases hrun
    exact h
  case recv =>
    split at hrun
    · exact h.orphanCall hrun
    · cases hrun
      exact h
  case final =>
    split at hrun <;> cases hrun
    · refine h.mild (mild_updScall fun sc' hsc' => ⟨⟨.inl rfl, rfl, rfl, .inr (.inr ⟨?_, rfl⟩)⟩, rfl⟩)
      rw [← Option.some_inj.mp (hsc.symm.trans hsc')]
      exact hstate
    · exact h
  case idle =>
    split at hrun <;> cases hrun
    · exact h.mild (mild_scallUncache hsc)
    · exact h
  case orphan =>
    split at hrun <;> cases hrun
    · exact h
    · exact h.mild (mild_scallUncache hsc)

theorem Tended.doAck (h : Tended s) : Tended (doAck cfg s hdr) := by
  unfold Dg.doAck
  split
  · exact h
  split
  · refine h.mild (mild_updScall fun sc _ => ?_)
    split
    · next hfinal => exact ⟨⟨.inl rfl, rfl, rfl, .inr (.inr ⟨hfinal.2, rfl⟩)⟩, rfl⟩
    · exact ⟨ScallMild.refl sc, rfl⟩
  · exact h

theorem Tended.doQuit (h : Tended s) (hrun : doQuit cfg s hdr = some s') : Tended s' := by
  unfold Dg.doQuit at hrun
  split at hrun
  · cases hrun
    exact h
  split at hrun
  · cases hrun
    exact h
  · next k hk =>
    obtain ⟨sc, hsc, hrun⟩ := Option.bind_eq_some_iff.mp hrun
    have hrq : Tended (s.updScall k fun sc => { sc with rq := { sc.rq with allPktsRecvd := true } }) :=
      h.mild (mild_updScall_of_eq fun _ => ⟨rfl, rfl, rfl, rfl⟩)
    split at hrun
    · cases hrun
      exact h
    dsimp only at hrun
    cases hstate : sc.state <;> rw [hstate] at hrun <;> dsimp only at hrun
    case idle | orphan =>
      cases hrun
      exact hrq
    all_goals exact hrq.orphanCall hrun

/-! ### Requests -/

variable {t u : Server} {scte : SctElt} {pkt : Pkt} {env : CallEnv} {invoke : InvokeResult}

theorem getElem?_concat {α : Type*} {l : List α} {a b : α} {j : ℕ}
    (h : (l ++ [a])[j]? = some b) : l[j]? = some b ∨ j = l.length ∧ b = a := by
  rcases Nat.lt_or_ge j l.length with hlt | hge
  · rw [List.getElem?_append_left hlt] at h
    exact .inl h
  · rw [List.getElem?_append_right hge] at h
    have hlt := (List.getElem?_eq_some_iff.mp h).1
    rw [List.length_singleton] at hlt
    exact .inr ⟨by omega, List.mem_singleton.mp (List.mem_of_getElem? h)⟩

/-- No executor is busy with the handle. -/
def Unused (s : Server) (k : ℕ) : Prop := ∀ ex ∈ s.execs, ex.scall = k → ex.pc = .done

theorem Tended.unused_of_ref (h : Tended s) (hsc : s.scalls[k]? = some sc)
    (href : sc.hasCallExecutorRef = false) : Unused s k := by
  intro ex hmem heq
  by_contra hpc
  obtain ⟨j, hj⟩ := List.mem_iff_getElem?.mp hmem
  obtain ⟨sc', hsc', href', -⟩ := h.live j ex hj hpc
  rw [heq] at hsc'
  rw [Option.some_inj.mp (hsc.symm.trans hsc'), href'] at href
  cases href

theorem Tended.unused_of_setup (h : Tended s) (hsc : s.scalls[k]? = some sc)
    (hsetup : sc.callIsSetup = false) : Unused s k := by
  intro ex hmem heq
  by_contra hpc
  obtain ⟨j, hj⟩ := List.mem_iff_getElem?.mp hmem
  obtain ⟨sc', hsc', -, hsetup'⟩ := h.live j ex hj hpc
  rw [heq] at hsc'
  rw [Option.some_inj.mp (hsc.symm.trans hsc'), hsetup'] at hsetup
  cases hsetup

/-- A handle that no executor is busy with may be set to anything that is right for it. -/
theorem Tended.replace (h : Tended s) {f : Scall → Scall} (hunused : Unused s k)
    (hlinked : s'.Linked) (hscalls : s'.scalls = s.scalls.modify k f) (hexecs : s'.execs = s.execs)
    (horphan : ∀ sc, (f sc).state ≠ .orphan)
    (hrest : ∀ sc, (f sc).state = .idle ∨ (f sc).state = .final →
      (f sc).hasCallExecutorRef = false) : Tended s' := by
  have hget : ∀ (j : ℕ) (sc' : Scall), s'.scalls[j]? = some sc' →
      ∃ sc, s.scalls[j]? = some sc ∧ sc' = if k = j then f sc else sc := by
    intro j sc' hsc'
    rw [hscalls] at hsc'
    exact getElem?_updScall hsc'
  refine ⟨hlinked, fun j sc' hsc' hst => ?_, fun j sc' hsc' hst => ?_, fun j ex hex hpc => ?_, ?_⟩
  · obtain ⟨sc, hsc, rfl⟩ := hget j sc' hsc'
    split at hst
    · exact absurd hst (horphan sc)
    · next hne =>
      rw [if_neg hne]
      exact h.orphan j sc hsc hst
  · obtain ⟨sc, hsc, rfl⟩ := hget j sc' hsc'
    split at hst
    · next heq =>
      rw [if_pos heq]
      exact hrest sc hst
    · next hne =>
      rw [if_neg hne]
      exact h.rest j sc hsc hst
  · rw [hexecs] at hex
    obtain ⟨sc, hsc, hfields⟩ := h.live j ex hex hpc
    have hne : k ≠ ex.scall := fun heq => hpc (hunused ex (List.mem_of_getElem? hex) heq.symm)
    refine ⟨sc, ?_, hfields⟩
    rw [hscalls, List.getElem?_modify, hsc]
    simp only [hne, if_false]
    rfl
  · rw [hexecs]
    exact h.single

theorem Tended.scallAlloc (h : Tended t) : Tended (scallAlloc t i hdr) := by
  have hget : ∀ (j : ℕ) (sc' : Scall), (Dg.scallAlloc t i hdr).scalls[j]? = some sc' →
      t.scalls[j]? = some sc' ∨ sc' = { scte := some i, callSeq := hdr.seq } := by
    intro j sc' hsc'
    change (t.scalls ++ [({ scte := some i, callSeq := hdr.seq } : Scall)])[j]? = some sc' at hsc'
    exact (getElem?_concat hsc').imp id And.right
  refine ⟨linked_scallAlloc h.linked, fun j sc' hsc' hst => ?_, fun j sc' hsc' hst => ?_,
    fun j ex hex hpc => ?_, h.single⟩
  · rcases hget j sc' hsc' with hold | rfl
    · exact h.orphan j sc' hold hst
    · cases hst
  · rcases hget j sc' hsc' with hold | rfl
    · exact h.rest j sc' hold hst
    · rfl
  · obtain ⟨sc, hsc, hfields⟩ := h.live j ex hex hpc
    refine ⟨sc, ?_, hfields⟩
    change (t.scalls ++ _)[ex.scall]? = some sc
    rw [List.getElem?_append_left (List.getElem?_eq_some_iff.mp hsc).1, hsc]

/-- A call is begun on a handle that no executor is busy with, or on a new handle. -/
theorem Tended.newCall (h : Tended t) (hscte : t.sct[i]? = some scte) {scallp : Option ℕ}
    (hunused : ∀ k, sctReusedScall t scte scallp hdr = some k → Unused t k)
    (hcall : sctNewCall t i scallp hdr = some (u, k)) :
    Tended u ∧ u.execs = t.execs ∧
      (sctReusedScall t scte scallp hdr = some k ∨ t.scalls.length ≤ k) := by
  rw [sctNewCall, hscte, Option.bind_eq_bind, Option.bind_some] at hcall
  split at hcall
  · cases hcall
  set a : Server := { t with accepted := hdr.seq :: t.accepted } with ha
  have hla : Tended a := ⟨⟨h.linked.scte, h.linked.nodup⟩, h.orphan, h.rest, h.live, h.single⟩
  have hreused : sctReusedScall a scte scallp hdr = sctReusedScall t scte scallp hdr := rfl
  dsimp only at hcall
  rw [hreused] at hcall
  split at hcall
  · next k' hk' =>
    cases hcall
    have hexecs : (scallReinit a k hdr).execs = a.execs := by
      unfold scallReinit
      dsimp only
      split
      · split <;> rfl
      · rfl
    have hreinit : Tended (scallReinit a k hdr) :=
      hla.replace (hunused k hk') (linked_scallReinit hla.linked) scallReinit_scalls hexecs
        (fun _ => by simp [scallInit]) fun _ _ => rfl
    exact ⟨hreinit.mild (mild_updScte sctRaise_handles), hexecs, .inl hk'⟩
  · cases hcall
    exact ⟨hla.scallAlloc.mild (mild_updScte sctRaise_handles), rfl, .inr le_rfl⟩

/-- A call that is not set up gets an executor, the only one of its handle. -/
theorem Tended.setupCall (h : Tended u) (hsc : u.scalls[k]? = some sc)
    (hsetup : sc.callIsSetup = false) (queued : Bool) :
    Tended (setupCall u k queued) ∧
      ∀ ex, (Dg.setupCall u k queued).execs[u.execs.length]? = some ex → ex.scall = k := by
  have hget : ∀ (j : ℕ) (sc' : Scall), (Dg.setupCall u k queued).scalls[j]? = some sc' →
      ∃ sc, u.scalls[j]? = some sc ∧ sc' = if k = j then { sc with
        state := .recv
        callIsSetup := true
        hasCallExecutorRef := true
        callIsQueued := queued } else sc := fun j sc' hsc' => getElem?_updScall (s := u) hsc'
  have hexec : ∀ (j : ℕ) (ex : Executor), (Dg.setupCall u k queued).execs[j]? = some ex →
      u.execs[j]? = some ex ∨ j = u.execs.length ∧ ex.scall = k := by
    intro j ex hex
    change (u.execs ++ [_])[j]? = some ex at hex
    rcases getElem?_concat hex with hold | ⟨hlast, rfl⟩
    · exact .inl hold
    · exact .inr ⟨hlast, rfl⟩
  have hother : ∀ (j : ℕ) (ex : Executor), u.execs[j]? = some ex → ex.pc ≠ .done →
      k ≠ ex.scall := fun j ex hex hpc heq =>
    hpc (h.unused_of_setup hsc hsetup ex (List.mem_of_getElem? hex) heq.symm)
  have hlinked : (Dg.setupCall u k queued).Linked := by
    have hup := linked_updScall (k := k) (f := fun sc : Scall => { sc with
      state := .recv
      callIsSetup := true
      hasCallExecutorRef := true
      callIsQueued := queued }) (fun _ _ => rfl) h.linked
    exact ⟨hup.scte, hup.nodup⟩
  refine ⟨⟨hlinked, fun j sc' hsc' hst => ?_, fun j sc' hsc' hst => ?_, fun j ex hex hpc => ?_,
    fun j j' ex ex' hex hex' hpc hpc' heq => ?_⟩, fun ex hex => ?_⟩
  · obtain ⟨sc₀, hsc₀, rfl⟩ := hget j sc' hsc'
    split at hst
    · cases hst
    · next hne =>
      rw [if_neg hne]
      exact h.orphan j sc₀ hsc₀ hst
  · obtain ⟨sc₀, hsc₀, rfl⟩ := hget j sc' hsc'
    split at hst
    · rcases hst with hst | hst <;> cases hst
    · next hne =>
      rw [if_neg hne]
      exact h.rest j sc₀ hsc₀ hst
  · rcases hexec j ex hex with hold | ⟨-, hscall⟩
    · obtain ⟨sc₀, hsc₀, hfields⟩ := h.live j ex hold hpc
      have hne := hother j ex hold hpc
      refine ⟨sc₀, ?_, hfields⟩
      change (u.scalls.modify k _)[ex.scall]? = some sc₀
      rw [List.getElem?_modify, hsc₀]
      simp only [hne, if_false]
      rfl
    · refine ⟨{ sc with
        state := .recv
        callIsSetup := true
        hasCallExecutorRef := true
        callIsQueued := queued }, ?_, rfl, rfl⟩
      change (u.scalls.modify k _)[ex.scall]? = some _
      rw [hscall, List.getElem?_modify, hsc]
      simp only [if_true]
      rfl
  · rcases hexec j ex hex with hold | ⟨rfl, hscall⟩
    · rcases hexec j' ex' hex' with hold' | ⟨-, hscall'⟩
      · exact h.single j j' ex ex' hold hold' hpc hpc' heq
      · exact absurd (heq.trans hscall').symm (hother j ex hold hpc)
    · rcases hexec j' ex' hex' with hold' | ⟨rfl, -⟩
      · exact absurd (hscall.symm.trans heq) (hother j' ex' hold' hpc')
      · rfl
  · rcases hexec _ ex hex with hold | ⟨-, hscall⟩
    · rw [List.getElem?_eq_none le_rfl] at hold
      cases hold
    · exact hscall

/-- A call that no executor is busy with goes back to the idle state. -/
theorem Tended.backoutCall (h : Tended u) (hunused : Unused u k) (scte : Option ℕ) :
    Tended (backoutCall u k scte hdr) := by
  set f : Scall → Scall := fun sc => { sc with
    state := .idle
    rq := recvqFree sc.rq
    callIsSetup := true
    hasCallExecutorRef := false } with hf
  have hback : Tended (u.updScall k f) := by
    refine h.replace (f := f) hunused (linked_updScall (fun _ _ => rfl) h.linked) rfl rfl
      (fun sc => ?_) fun _ _ => rfl
    change CallState.idle ≠ .orphan
    decide
  change Tended (sctBackoutNewCall (u.updScall k f) scte hdr.seq)
  unfold sctBackoutNewCall
  dsimp only
  have hacc : Tended { u.updScall k f with accepted := (u.updScall k f).accepted.erase hdr.seq } :=
    ⟨⟨hback.linked.scte, hback.linked.nodup⟩, hback.orphan, hback.rest, hback.live, hback.single⟩
  cases scte with
  | none => exact hacc
  | some i =>
    refine hacc.mild (mild_updScte fun scte => ?_)
    split <;> rfl

/-- An executor that a packet starts is the only one of its handle. -/
theorem Tended.acceptPkt (h : Tended u) (hrun : acceptPkt u k pkt env invoke = some s') :
    Tended s' ∧ ∀ ex, s'.execs[u.execs.length]? = some ex → ex.scall = k ∧ Unused u k := by
  rw [Dg.acceptPkt] at hrun
  set a := u.updScall k fun sc => { sc with
    clientNeedsSboot := decide (pkt.hdr.serverBoot = 0)
    fwd2Rqe := if completesForward sc pkt.hdr = true then none else sc.fwd2Rqe } with ha
  have hfirst : Tended a :=
    h.mild (mild_updScall_of_eq fun _ => ⟨rfl, rfl, rfl, rfl⟩)
  have hexecs : a.execs = u.execs := rfl
  have hnone : ∀ {t : Server}, t.execs = u.execs → ∀ ex, t.execs[u.execs.length]? = some ex →
      ex.scall = k ∧ Unused u k := by
    intro t ht ex hex
    rw [ht, List.getElem?_eq_none le_rfl] at hex
    cases hex
  have hinsert : ∀ {t : Server}, Tended t → Tended (insertPkt t k pkt env) := fun ht =>
    ht.mild (mild_updScall_of_eq fun _ => ⟨rfl, rfl, rfl, rfl⟩)
  split at hrun
  · cases hrun
    exact ⟨hfirst.mild (mild_updScall_of_eq fun _ => ⟨rfl, rfl, rfl, rfl⟩), hnone rfl⟩
  obtain ⟨sc, hsc, hrun⟩ := Option.bind_eq_some_iff.mp hrun
  split at hrun
  · cases hrun
    exact ⟨hinsert hfirst, hnone rfl⟩
  next hsetup =>
  have hunused : Unused a k := hfirst.unused_of_setup hsc (Bool.eq_false_iff.mpr hsetup)
  have hstart := hfirst.setupCall hsc (Bool.eq_false_iff.mpr hsetup)
  cases invoke with
  | ok =>
    cases hrun
    exact ⟨hinsert (hstart false).1, fun ex hex => ⟨(hstart false).2 ex hex, hunused⟩⟩
  | queued =>
    cases hrun
    exact ⟨hinsert (hstart true).1, fun ex hex => ⟨(hstart true).2 ex hex, hunused⟩⟩
  | failed =>
    cases hrun
    refine ⟨hfirst.backoutCall hunused _, hnone ?_⟩
    unfold Dg.backoutCall sctBackoutNewCall
    dsimp only
    split <;> rfl

/-! ### Which handle a request finds -/

variable {curCallSeq : BitVec 32} {state : CallState}

theorem doRequestCommon_orphan (h : doRequestCommon curCallSeq state hdr = .orphanCurCall) :
    hdr.seq ≠ curCallSeq ∧ (state = .init ∨ state = .recv ∨ state = .xmit) := by
  unfold doRequestCommon at h
  split at h
  · cases state with
    | idle =>
      dsimp only at h
      split_ifs at h
    | _ => cases h
  · next hne =>
    refine ⟨hne, ?_⟩
    split_ifs at h <;> cases state <;> simp_all

/-- A new call begins on a handle whose call is over, or it is a maybe call with another number. -/
theorem doRequestCommon_new (h : doRequestCommon curCallSeq state hdr = .newCall) :
    state = .idle ∨ state = .final ∨ hdr.seqMaybe = true ∧ hdr.seq ≠ curCallSeq := by
  unfold doRequestCommon at h
  split at h
  · cases state <;> simp_all
  · next hne =>
    split_ifs at h <;> cases state <;> simp_all

theorem linked_lookedUp_any (hl : s.Linked) : (lookedUp cfg s hdr).Linked := by
  unfold lookedUp sctGet
  dsimp only
  split
  · exact ⟨hl.scte, hl.nodup⟩
  · refine ⟨fun j scte h k hk => ?_, fun scte h => ?_⟩
    · rcases getElem?_concat h with hold | ⟨-, rfl⟩
      · exact hl.scte j scte hold k hk
      · cases hk
    · rcases List.mem_append.mp h with hold | hnew
      · exact hl.nodup scte hold
      · rw [List.mem_singleton.mp hnew]
        exact List.nodup_nil

theorem Tended.lookedUp (h : Tended s) : Tended (lookedUp cfg s hdr) :=
  ⟨linked_lookedUp_any h.linked, h.orphan, h.rest, h.live, h.single⟩

/-- A handle of an entry is not orphaned; if its call is over as well, it is free. -/
theorem Tended.free (h : Tended s) (hscte : s.sct[i]? = some scte) (hk : k ∈ scte.handles)
    (hover : inProgress s k = false) : Free s i k := by
  obtain ⟨sc, hsc, hback⟩ := Option.bind_eq_some_iff.mp (h.linked.scte i scte hscte k hk)
  have hstate : sc.state = .idle ∨ sc.state = .final := by
    rw [inProgress, hsc, Option.any_some, decide_eq_false_iff_not] at hover
    cases hst : sc.state with
    | idle => exact .inl rfl
    | final => exact .inr rfl
    | orphan =>
      have hnone := h.orphan k sc hsc hst
      rw [hback] at hnone
      cases hnone
    | _ => simp [hst] at hover
  have href := h.rest k sc hsc hstate
  exact ⟨⟨scte, hscte, hk⟩, ⟨sc, hsc, hback, href, hstate⟩, h.unused_of_ref hsc href⟩

theorem inProgress_eq_false (hsc : s.scalls[k]? = some sc)
    (hover : sc.state = .idle ∨ sc.state = .final) : inProgress s k = false := by
  rw [inProgress, hsc]
  rcases hover with hst | hst <;> simp [hst]

/-- The handle that a new call takes over is free. -/
theorem Tended.free_of_new (h : Tended s) (hscte : s.sct[i]? = some scte)
    (hspared : SparedBy s scte hdr) {scallp : Option ℕ}
    (hdisp : requestDisposition s scte hdr = (scallp, .newCall))
    (hk : sctReusedScall s scte scallp hdr = some k) : Free s i k := by
  obtain ⟨hinq, hcommon⟩ := Prod.mk.inj hdisp
  have hmem : k ∈ scte.handles :=
    sctReusedScall_handles (fun k hk => sctInqScall_handles (hinq.trans hk)) hk
  refine h.free hscte hmem ?_
  obtain ⟨sc, hsc, -⟩ := Option.bind_eq_some_iff.mp (h.linked.scte i scte hscte k hmem)
  rw [SparedBy, hinq] at hspared
  rw [hinq] at hcommon
  cases scallp with
  | some k' =>
    obtain rfl : k' = k := Option.some_inj.mp hk
    rw [Option.bind_some, hsc, Option.map_some, Option.getD_some] at hcommon
    rcases doRequestCommon_new hcommon with hidle | hfinal | ⟨hmaybe, hne⟩
    · exact inProgress_eq_false hsc (.inl hidle)
    · exact inProgress_eq_false hsc (.inr hfinal)
    · exact hspared hmaybe hne
  | none =>
    rw [sctReusedScall] at hk
    split at hk
    · next k' hk' =>
      split_ifs at hk with hlater
      cases hk
      exact hspared k hk' hcommon hlater
    · cases hk

/-- A call that is orphaned for a newer one is not followed by the taking over of its handle. -/
theorem Tended.not_maybe (h : Tended s) (hscte : s.sct[i]? = some scte)
    (hspared : SparedBy s scte hdr)
    (hdisp : requestDisposition s scte hdr = (some k, .orphanCurCall)) : hdr.seqMaybe = false := by
  obtain ⟨hinq, hcommon⟩ := Prod.mk.inj hdisp
  obtain ⟨sc, hsc, -⟩ :=
    Option.bind_eq_some_iff.mp (h.linked.scte i scte hscte k (sctInqScall_handles hinq))
  rw [SparedBy, hinq] at hspared
  rw [hinq, Option.bind_some, hsc, Option.map_some, Option.getD_some] at hcommon
  obtain ⟨hne, hstate⟩ := doRequestCommon_orphan hcommon
  by_contra hmaybe
  have hover := hspared (Bool.not_eq_false _ ▸ hmaybe) hne
  rw [inProgress, hsc, Option.any_some, decide_eq_false_iff_not] at hover
  rcases hstate with hst | hst | hst <;> simp [hst] at hover

/-! ### One step -/

/-- A handle that gets an executor has none, and is not orphaned. -/
def Started (s s' : Server) : Prop :=
  ∀ ex, s'.execs[s.execs.length]? = some ex →
    Unused s ex.scall ∧ ∀ sc, s.scalls[ex.scall]? = some sc → sc.state ≠ .orphan

theorem started_of_length (hexecs : s'.execs.length = s.execs.length) : Started s s' := by
  intro ex hex
  rw [List.getElem?_eq_none hexecs.le] at hex
  cases hex

theorem length_orphanCall (hrun : scallOrphanCall t k = some u) :
    u.execs.length = t.execs.length := by
  rw [scallOrphanCall] at hrun
  obtain ⟨sc, -, hrun⟩ := Option.bind_eq_some_iff.mp hrun
  split at hrun
  · cases hrun
    rfl
  · obtain ⟨i, -, hrun⟩ := Option.bind_eq_some_iff.mp hrun
    cases hrun
    exact List.length_map ..

/-- A packet for a handle that is not orphaned may start an executor. -/
theorem Tended.started (h : Tended u) (hexecs : u.execs = s.execs)
    (hstate : ∀ sc, s.scalls[k]? = some sc → sc.state ≠ .orphan)
    (hrun : Dg.acceptPkt u k pkt env invoke = some s') : Tended s' ∧ Started s s' := by
  obtain ⟨hs', hstart⟩ := h.acceptPkt hrun
  refine ⟨hs', fun ex hex => ?_⟩
  rw [hexecs] at hstart
  obtain ⟨hk, hunused⟩ := hstart ex hex
  rw [hk]
  refine ⟨fun ex' hmem => hunused ex' ?_, hstate⟩
  rw [hexecs]
  exact hmem

theorem recycled_eq (hboot : ¬ svrChkSboot cfg hdr = false)
    (hi : (sctGet cfg s.sct hdr.ahint.toNat hdr.seq).2 = i)
    (hscte : (lookedUp cfg s hdr).sct[i]? = some scte) :
    recycled cfg s hdr = (match requestDisposition (lookedUp cfg s hdr) scte hdr with
      | (_, .old) | (_, .ping) | (_, .nonIdemRerun) | (_, .curCall) => none
      | (scall, .orphanCurCall) => do
        let k ← scall
        let t ← scallOrphanCall (lookedUp cfg s hdr) k
        if hdr.seqMaybe then some (t, i, k) else none
      | (scall, .newCall) =>
        (sctReusedScall (lookedUp cfg s hdr) scte scall hdr).map fun k =>
          (lookedUp cfg s hdr, i, k)) := by
  subst hi
  rw [recycled, if_neg hboot]
  change ((lookedUp cfg s hdr).sct[(sctGet cfg s.sct hdr.ahint.toNat hdr.seq).2]? >>= _) = _
  rw [hscte]
  rfl

/-- A request that spares the calls in progress takes over free handles only. -/
theorem Tended.request (h : Tended s) (hspared : Spared cfg s (.request pkt env invoke)) :
    (∀ t i k, recycled cfg s pkt.hdr = some (t, i, k) → Free t i k) ∧
      ∀ s', doRequest cfg s pkt env invoke = some s' → Tended s' ∧ Started s s' := by
  by_cases hboot : svrChkSboot cfg pkt.hdr = false
  · rw [recycled, if_pos hboot, doRequest, if_pos hboot]
    refine ⟨fun _ _ _ hrec => (by cases hrec), fun s' hs' => ?_⟩
    cases hs'
    exact ⟨h, started_of_length rfl⟩
  have hL : Tended (Dg.lookedUp cfg s pkt.hdr) := h.lookedUp
  set L := Dg.lookedUp cfg s pkt.hdr with hLdef
  obtain ⟨i, hi⟩ : ∃ i, (sctGet cfg s.sct pkt.hdr.ahint.toNat pkt.hdr.seq).2 = i := ⟨_, rfl⟩
  have hspared' := hspared (Bool.not_eq_false _ ▸ hboot)
  rw [hi] at hspared'
  cases hscte : L.sct[i]? with
  | none =>
    have hnone : L.sct[(sctGet cfg s.sct pkt.hdr.ahint.toNat pkt.hdr.seq).2]? = none := by
      rw [hi]
      exact hscte
    rw [recycled, if_neg hboot, doRequest, if_neg hboot]
    change (∀ (t : Server) (i k : ℕ), (L.sct[(sctGet cfg s.sct pkt.hdr.ahint.toNat pkt.hdr.seq).2]? >>= _)
        = some (t, i, k) → _) ∧
      ∀ s', (L.sct[(sctGet cfg s.sct pkt.hdr.ahint.toNat pkt.hdr.seq).2]? >>= _) = some s' → _
    rw [hnone]
    exact ⟨fun _ _ _ hrec => (by cases hrec), fun _ hs' => (by cases hs')⟩
  | some scte =>
  have hsp : SparedBy L scte pkt.hdr := hspared' scte hscte
  have hcalls : L.scalls = s.scalls := rfl
  -- a handle of the entry is not orphaned
  have hstate : ∀ k ∈ scte.handles, ∀ sc, s.scalls[k]? = some sc → sc.state ≠ .orphan := by
    intro k hk sc hsc hst
    have hback := hL.linked.scte i scte hscte k hk
    rw [hcalls, hsc, Option.bind_some, hL.orphan k sc hsc hst] at hback
    cases hback
  have hnew : ∀ scallp, requestDisposition L scte pkt.hdr = (scallp, .newCall) →
      (∀ k, sctReusedScall L scte scallp pkt.hdr = some k → Free L i k) ∧
      ∀ u k s', sctNewCall L i scallp pkt.hdr = some (u, k) →
        Dg.acceptPkt u k pkt env invoke = some s' → Tended s' ∧ Started s s' := by
    intro scallp hdisp
    have hfree : ∀ k, sctReusedScall L scte scallp pkt.hdr = some k → Free L i k :=
      fun k hk => hL.free_of_new hscte hsp hdisp hk
    refine ⟨hfree, fun u k s' hcall hrun => ?_⟩
    obtain ⟨hu, hexecs, hk⟩ := hL.newCall hscte (fun k hk => (hfree k hk).execs) hcall
    refine hu.started hexecs (fun sc hsc => ?_) hrun
    rcases hk with hk | hlen
    · obtain ⟨sc', hsc', -, -, hover⟩ := (hfree k hk).scall
      rw [Option.some_inj.mp (hsc.symm.trans hsc')]
      rcases hover with hst | hst <;> rw [hst] <;> decide
    · rw [← hcalls, List.getElem?_eq_none hlen] at hsc
      cases hsc
  rw [recycled_eq hboot hi hscte, doRequest_eq hboot hi hscte, ← hLdef]
  rcases hdisp : requestDisposition L scte pkt.hdr with ⟨scallp, disp⟩
  cases disp with
  | old | ping | nonIdemRerun =>
    refine ⟨fun _ _ _ hrec => (by cases hrec), fun s' hs' => ?_⟩
    cases hs'
    exact ⟨hL, started_of_length rfl⟩
  | curCall =>
    refine ⟨fun _ _ _ hrec => (by cases hrec), fun s' hs' => ?_⟩
    obtain ⟨k, rfl, hrun⟩ := Option.bind_eq_some_iff.mp hs'
    exact hL.started rfl (hstate k (sctInqScall_handles (Prod.mk.inj hdisp).1)) hrun
  | orphanCurCall =>
    -- an orphaned handle is not taken over: the request is not a maybe request
    cases scallp with
    | none => exact ⟨fun _ _ _ hrec => (by cases hrec), fun _ hs' => (by cases hs')⟩
    | some k =>
    refine ⟨fun t j k' hrec => ?_, fun s' hs' => ?_⟩
    · change (scallOrphanCall L k >>= _) = _ at hrec
      obtain ⟨t', -, hrec⟩ := Option.bind_eq_some_iff.mp hrec
      rw [hL.not_maybe hscte hsp hdisp] at hrec
      cases hrec
    · change (scallOrphanCall L k >>= _) = _ at hs'
      obtain ⟨t, ht, hs'⟩ := Option.bind_eq_some_iff.mp hs'
      rw [hL.not_maybe hscte hsp hdisp] at hs'
      cases hs'
      have hlength := length_orphanCall ht
      exact ⟨hL.orphanCall ht, started_of_length hlength⟩
  | newCall =>
    obtain ⟨hfree, hstart⟩ := hnew scallp hdisp
    refine ⟨fun t j k hrec => ?_, fun s' hs' => ?_⟩
    · obtain ⟨k', hk', heq⟩ := Option.map_eq_some_iff.mp hrec
      cases heq
      exact hfree k hk'
    · obtain ⟨⟨u, k⟩, hcall, hrun⟩ := Option.bind_eq_some_iff.mp hs'
      exact hstart u k s' hcall hrun

theorem Tended.notRecycled (h : Tended s) {ev : AnyEvent} (hspared : Spared cfg s ev) :
    NotRecycled cfg s ev := by
  cases ev with
  | request pkt env invoke =>
    obtain ⟨hfree, hstart⟩ := h.request hspared
    exact ⟨hfree, fun s' hs' => (hstart s' hs').2⟩
  | _ => trivial

theorem Free.over (h : Free s i k) : inProgress s k = false := by
  obtain ⟨sc, hsc, -, -, hover⟩ := h.scall
  exact inProgress_eq_false hsc hover

theorem exists_orphanCall (hsc : s.scalls[k]? = some sc) (hscte : sc.scte = some i)
    (hstate : sc.state ≠ .orphan) :
    ∃ t, scallOrphanCall s k = some t ∧ ∃ sc', t.scalls[k]? = some sc' ∧ sc'.state = .orphan := by
  rw [scallOrphanCall, hsc, Option.bind_eq_bind, Option.bind_some, if_neg hstate, hscte]
  refine ⟨_, rfl, { Dg.signalFailure .callOrphaned sc with
    scte := none
    state := .orphan
    hasCallExecutorRef := sc.hasCallExecutorRef &&
      !isQueued (s.updScte i (releaseScallFromScte k)) k }, ?_, rfl⟩
  change (s.scalls.modify k _)[k]? = some _
  rw [List.getElem?_modify, hsc]
  simp only [if_true]
  rfl

/-- A request that does not spare a call in progress takes over its handle. -/
theorem Tended.spared (h : Tended s) {ev : AnyEvent} (hnot : NotRecycled cfg s ev) :
    Spared cfg s ev := by
  cases ev with
  | request pkt env invoke =>
    intro hboot scte hscte
    have hboot' : ¬ svrChkSboot cfg pkt.hdr = false := by simp [hboot]
    have hL : Tended (Dg.lookedUp cfg s pkt.hdr) := h.lookedUp
    have hfree := hnot.1
    obtain ⟨i, hi⟩ : ∃ i, (sctGet cfg s.sct pkt.hdr.ahint.toNat pkt.hdr.seq).2 = i := ⟨_, rfl⟩
    rw [hi] at hscte
    rw [recycled_eq hboot' hi hscte] at hfree
    set L := Dg.lookedUp cfg s pkt.hdr with hLdef
    -- otherwise the filter would call this a new call, or orphan the call in progress
    have hnew : ∀ scallp k, requestDisposition L scte pkt.hdr = (scallp, .newCall) →
        sctReusedScall L scte scallp pkt.hdr = some k → inProgress L k = false := by
      intro scallp k hdisp hk
      rw [hdisp] at hfree
      refine (hfree L i k ?_).over
      change (sctReusedScall L scte scallp pkt.hdr).map _ = _
      rw [hk, Option.map_some]
    change SparedBy L scte pkt.hdr
    unfold SparedBy
    split
    · next k hinq =>
      intro hmaybe hne
      obtain ⟨sc, hsc, hback⟩ :=
        Option.bind_eq_some_iff.mp (hL.linked.scte i scte hscte k (sctInqScall_handles hinq))
      by_contra hprog
      have hprogress : sc.state = .init ∨ sc.state = .recv ∨ sc.state = .xmit := by
        rw [inProgress, hsc, Option.any_some, decide_eq_false_iff_not, not_not] at hprog
        exact hprog
      have hdisp : requestDisposition L scte pkt.hdr = (some k, doRequestCommon scte.highSeq sc.state
          pkt.hdr) := by
        rw [requestDisposition, hinq, Option.bind_some, hsc, Option.map_some, Option.getD_some]
      by_cases hlt : Serial.Lt scte.highSeq pkt.hdr.seq
      · have hcommon : doRequestCommon scte.highSeq sc.state pkt.hdr = .orphanCurCall := by
          unfold doRequestCommon
          rw [if_neg hne, if_pos hlt]
          rcases hprogress with hst | hst | hst <;> rw [hst]
        obtain ⟨t, ht, sc', hsc', hst'⟩ := exists_orphanCall hsc hback (by
          rcases hprogress with hst | hst | hst <;> rw [hst] <;> decide)
        rw [hdisp, hcommon] at hfree
        have hover := (hfree t i k (by
          change (scallOrphanCall L k >>= _) = _
          rw [ht, Option.bind_eq_bind, Option.bind_some, if_pos hmaybe])).scall
        obtain ⟨sc₀, hsc₀, -, -, hover⟩ := hover
        rw [Option.some_inj.mp (hsc₀.symm.trans hsc'), hst'] at hover
        rcases hover with hover | hover <;> cases hover
      · have hcommon : doRequestCommon scte.highSeq sc.state pkt.hdr = .newCall := by
          unfold doRequestCommon
          rw [if_neg hne, if_neg hlt, if_pos hmaybe]
        exact hprog (hnew (some k) k (by rw [hdisp, hcommon]) rfl)
    · next hinq =>
      intro k hk hcommon hlater
      refine hnew none k ?_ ?_
      · rw [requestDisposition, hinq]
        exact Prod.ext rfl hcommon
      · rw [sctReusedScall, Option.mem_def.mp hk]
        exact if_neg hlater
  | _ => trivial

theorem Tended.anyStep (h : Tended s) {ev : AnyEvent} (hspared : Spared cfg s ev)
    (hrun : anyStep cfg s ev = some s') : Tended s' := by
  cases ev with
  | request pkt env invoke => exact ((h.request hspared).2 s' hrun).1
  | ack hdr =>
    cases hrun
    exact h.doAck
  | quit hdr => exact h.doQuit hrun
  | timer k aged => exact h.scallTimer hrun
  | signalFailure k st =>
    cases hrun
    exact h.mild (mild_updScall_of_eq fun _ => ⟨rfl, rfl, rfl, rfl⟩)
  | exec e answer ev =>
    obtain ⟨ex, hex, hrun⟩ := Option.bind_eq_some_iff.mp hrun
    exact h.execStep hex hrun

/-! ### Runs -/

theorem tended_init : Tended {} :=
  ⟨⟨fun _ _ h => by simp at h, fun _ h => by simp at h⟩, fun _ _ h => by simp at h,
    fun _ _ h => by simp at h, fun _ _ h => by simp at h, fun _ _ _ _ h => by simp at h⟩

theorem Tended.along_iff (h : Tended s) {evs : List AnyEvent} :
    Along (Dg.anyStep cfg) (NotRecycled cfg) s evs ↔ Along (Dg.anyStep cfg) (Spared cfg) s evs := by
  induction evs generalizing s with
  | nil => exact Iff.rfl
  | cons ev evs ih =>
    constructor
    · rintro ⟨hnot, hrest⟩
      have hspared := h.spared hnot
      exact ⟨hspared, fun s' hs' => (ih (h.anyStep hspared hs')).mp (hrest s' hs')⟩
    · rintro ⟨hspared, hrest⟩
      exact ⟨h.notRecycled hspared, fun s' hs' => (ih (h.anyStep hspared hs')).mpr (hrest s' hs')⟩

/-- In a run no handle is recycled, or given an executor, that is not free, exactly if its requests
spare the calls in progress. -/
theorem notRecycled_iff_spared (cfg : ServerConfig) (evs : List AnyEvent) :
    Along (anyStep cfg) (NotRecycled cfg) {} evs ↔ Along (anyStep cfg) (Spared cfg) {} evs :=
  tended_init.along_iff

instance SparedBy.decidable (s : Server) (scte : SctElt) (hdr : PktHdr) :
    Decidable (SparedBy s scte hdr) := by
  unfold SparedBy
  split <;> infer_instance

instance Spared.decidable (cfg : ServerConfig) (s : Server) : ∀ ev, Decidable (Spared cfg s ev)
  | .request pkt _ _ => inferInstanceAs (Decidable (svrChkSboot cfg pkt.hdr = true →
      ∀ scte ∈ (lookedUp cfg s pkt.hdr).sct[(sctGet cfg s.sct pkt.hdr.ahint.toNat pkt.hdr.seq).2]?,
        SparedBy s scte pkt.hdr))
  | .ack _ => isTrue trivial
  | .quit _ => isTrue trivial
  | .timer _ _ => isTrue trivial
  | .signalFailure _ _ => isTrue trivial
  | .exec _ _ _ => isTrue trivial

/-- The first fragment of a call, for the server that booted at time 1. -/
def firstPkt (seq : BitVec 32) (flags : BitVec 8) : AnyEvent :=
  .request (callPkt seq flags 0) {} .ok

/-- A call, its response, and the next call on the same handle. -/
def twoCalls : List AnyEvent :=
  [firstPkt 1 pfIdempotent, .exec 0 0 (.start false), .exec 0 0 (.receive .passed false none),
    .exec 0 0 (.stubReturn {}), firstPkt 2 pfIdempotent]

example : Along (anyStep bootOne) (Spared bootOne) {} twoCalls := by decide

/-- A maybe call that is newer than the call in progress takes over the orphaned handle. -/
theorem not_notRecycled :
    ¬ ∀ (cfg : ServerConfig) (evs : List AnyEvent), Along (anyStep cfg) (NotRecycled cfg) {} evs := by
  intro h
  have hrun : ((anyStep bootOne {} (firstPkt 1 0)).bind fun s =>
      (recycled bootOne s (callPkt 2 pfMaybe 0).hdr).map fun r =>
        (r.1.scalls[r.2.2]?).map Scall.state) = some (some .orphan) := by decide
  obtain ⟨s, hs, hrec⟩ := Option.bind_eq_some_iff.mp hrun
  obtain ⟨⟨t, i, k⟩, ht, hstate⟩ := Option.map_eq_some_iff.mp hrec
  obtain ⟨-, hsecond⟩ := h bootOne [firstPkt 1 0, firstPkt 2 pfMaybe]
  obtain ⟨sc, hsc, -, -, hover⟩ := ((hsecond s hs).1.1 t i k ht).scall
  rw [hsc, Option.map_some, Option.some_inj] at hstate
  rw [hstate] at hover
  rcases hover with hover | hover <;> cases hover

end Dg
