/-
The client's list of servers that it keeps informed (dgclive.c), and the context handles it is
kept for (ctxerrtl.c).

A server is on the maintain list while the client holds context handles of it; a thread sends
INDYs to the servers on the list.  The reference to the list is taken through the copy of the
binding that is made for the context, and given back through the binding of the call in which the
server nulled the context.

* `Sound` — what the list, its counts, the binding copies and the INDYs have to do with the context
  handles that the client holds;
* `Fits` — the events after which that is still so;
* `sound_iff_fits` — the states of a history are sound if and only if all its events fit.
-/
import FreeDce.Lib.Runs

namespace Dg

namespace Maint

open Runs

variable {α : Type} [DecidableEq α]

/-! ### Data -/

/-- What a binding handle was made for. -/
inductive HandleUse
  | application | context | maintElt
deriving DecidableEq

/-- `rpc_dg_binding_client_t`, and how often it was freed.  Handles are referred to by their
position in the list of all handles that were made; an address is what `rpc__naf_addr_compare`
tells apart. -/
structure BindingRep (α : Type) where
  rpcAddr : α
  use : HandleUse
  maintBinding : Option ℕ := none
  freed : ℕ := 0
deriving DecidableEq

/-- `maint_elt_t`. -/
structure MaintElt where
  shand : ℕ
  refcnt : BitVec 8
deriving DecidableEq

/-- `rpc_ss_caller_context_element_t`. -/
structure CallerContext where
  contextHandleUuid : BitVec 128
  usingHandle : ℕ
deriving DecidableEq

/-- The client: its binding handles, `maint_head`, `maintain_thread_running`, and the variables in
which the application has its context handles.  `readFreed` says that a handle was used after it
had been freed. -/
structure Client (α : Type) where
  handles : List (BindingRep α) := []
  maintHead : List MaintElt := []
  maintainThreadRunning : Bool := false
  vars : List (Option CallerContext) := []
  readFreed : Bool := false

variable {s t : Client α} {h u v : ℕ}

def Client.addr (s : Client α) (h : ℕ) : Option α := (s.handles[h]?).map BindingRep.rpcAddr

/-! ### Binding handles -/

/-- `rpc_binding_copy`; the copy starts without a maintained binding. -/
def bindingCopy (s : Client α) (h : ℕ) (use : HandleUse) : Option (Client α × ℕ) := do
  let src ← s.handles[h]?
  some ({ s with
    handles := s.handles ++ [{ rpcAddr := src.rpcAddr, use := use }]
    readFreed := s.readFreed || src.freed ≠ 0 }, s.handles.length)

def freeRep (rep : BindingRep α) : BindingRep α := { rep with freed := rep.freed + 1 }

def setMaint (shand : Option ℕ) (rep : BindingRep α) : BindingRep α :=
  { rep with maintBinding := shand }

/-- `rpc_binding_free`. -/
def bindingFree (s : Client α) (h : ℕ) : Client α :=
  { s with handles := s.handles.modify h freeRep }

/-! ### The maintain list -/

/-- `rpc__dg_network_maint`. -/
def networkMaint (s : Client α) (chand : ℕ) : Option (Client α) := do
  let rep ← s.handles[chand]?
  match s.maintHead.findIdx? fun maint => s.addr maint.shand = some rep.rpcAddr with
  | some j => do
    let maint ← s.maintHead[j]?
    some { s with
      handles := s.handles.modify chand (setMaint (some maint.shand))
      maintHead := s.maintHead.modify j fun maint => { maint with refcnt := maint.refcnt + 1 } }
  | none => do
    let (s, shand) ← bindingCopy s chand .maintElt
    some { s with
      handles := s.handles.modify chand (setMaint (some shand))
      maintHead := { shand := shand, refcnt := 1 } :: s.maintHead
      maintainThreadRunning := true }

/-- `rpc__dg_network_stop_maint`.  That the handle is not on the list is a status that nobody
looks at. -/
def networkStopMaint (s : Client α) (chand : ℕ) : Option (Client α) := do
  let rep ← s.handles[chand]?
  let s := { s with readFreed := s.readFreed || rep.freed ≠ 0 }
  match s.maintHead.findIdx? fun maint => rep.maintBinding = some maint.shand with
  | some j => do
    let maint : MaintElt ← s.maintHead[j]?
    let s := { s with handles := s.handles.modify chand (setMaint none) }
    if maint.refcnt - 1 = 0 then
      some (bindingFree { s with maintHead := s.maintHead.eraseIdx j } maint.shand)
    else
      some { s with
        maintHead := s.maintHead.modify j fun maint => { maint with refcnt := maint.refcnt - 1 } }
  | none => some s

/-- The servers that a pass of the maintain thread sends an INDY to. -/
def indyTargets (s : Client α) : List (Option α) :=
  if s.maintainThreadRunning then s.maintHead.map fun maint => s.addr maint.shand else []

/-- The end of a pass of `network_maintain_liveness`. -/
def maintainPass (s : Client α) : Client α :=
  if s.maintainThreadRunning ∧ s.maintHead = [] then { s with maintainThreadRunning := false }
  else s

/-! ### Context handles -/

/-- `rpc_ss_create_caller_context`. -/
def createCallerContext (s : Client α) (wire : BitVec 128) (callerHandle v : ℕ) :
    Option (Client α) := do
  let (s, using_handle) ← bindingCopy s callerHandle .context
  let context : CallerContext := { contextHandleUuid := wire, usingHandle := using_handle }
  networkMaint { s with vars := s.vars.set v (some context) } using_handle

/-- `rpc_ss_er_ctx_from_wire`, for the parameter in variable `v`.  A context that differs from the
one that was sent raises an exception. -/
def erCtxFromWire (s : Client α) (wire : BitVec 128) (v callerHandle : ℕ) (inOut : Bool) :
    Option (Client α) := do
  let var : Option CallerContext ← s.vars[v]?
  if inOut then
    if wire = 0 then
      match var with
      | some context => do
        let s ← networkStopMaint s callerHandle
        let s := bindingFree s context.usingHandle
        some { s with vars := s.vars.set v none }
      | none => some s
    else
      match var with
      | some _ => some s
      | none => createCallerContext s wire callerHandle v
  else if wire = 0 then some { s with vars := s.vars.set v none }
  else createCallerContext s wire callerHandle v

/-- `rpc_ss_destroy_client_context`. -/
def destroyClientContext (s : Client α) (v : ℕ) : Option (Client α) := do
  let _ : Option CallerContext ← s.vars[v]?
  some { s with vars := s.vars.set v none }

/-- What happens on the client.  A call is made on a binding of the application or on the one of a
context, and its context parameters come in one after the other. -/
inductive Event (α : Type)
  | bind (rpcAddr : α)
  | declare
  | param (wire : BitVec 128) (v callerHandle : ℕ) (inOut : Bool)
  | destroy (v : ℕ)
  | pass
deriving DecidableEq

/-- The handle can be that of a call. -/
def callable (s : Client α) (h : ℕ) : Bool :=
  (s.handles[h]?).any fun rep => rep.use ≠ .maintElt

def step (s : Client α) : Event α → Option (Client α)
  | .bind rpcAddr =>
    some { s with handles := s.handles ++ [{ rpcAddr := rpcAddr, use := .application }] }
  | .declare => some { s with vars := s.vars ++ [none] }
  | .param wire v callerHandle inOut =>
    if callable s callerHandle then erCtxFromWire s wire v callerHandle inOut else none
  | .destroy v => destroyClientContext s v
  | .pass => some (maintainPass s)

/-! ### What the list is for -/

/-- Each key is on the list once, with its count, and only while the count is positive. -/
structure Counted {κ : Type*} (l : List (κ × BitVec 8)) (count : κ → ℕ) : Prop where
  nodup : (l.map Prod.fst).Nodup
  tally : ∀ p ∈ l, p.2.toNat = count p.1
  mem_iff : ∀ k, k ∈ l.map Prod.fst ↔ 0 < count k

/-- The addresses on the maintain list, with their counts. -/
def Client.entries (s : Client α) : List (Option α × BitVec 8) :=
  s.maintHead.map fun maint => (s.addr maint.shand, maint.refcnt)

/-- The number of context handles that the client holds of a server. -/
def Client.held (s : Client α) (a : Option α) : ℕ :=
  s.vars.countP fun var => var.any fun context => s.addr context.usingHandle = a

/-- The number of contexts and list elements that have the handle. -/
def Client.owners (s : Client α) (h : ℕ) : ℕ :=
  s.vars.countP (fun var => var.any fun context => context.usingHandle = h) +
    s.maintHead.countP fun maint => maint.shand = h

/-- The list has the servers of which context handles are held, each once and with their number;
INDYs go to these servers; a copy is freed once, when nobody has it any more, and not used after
that. -/
structure Sound (s : Client α) : Prop where
  list : Counted s.entries s.held
  indys : ∀ a, a ∈ indyTargets s ↔ 0 < s.held a
  freed : ∀ h rep, s.handles[h]? = some rep → rep.use ≠ .application → rep.freed + s.owners h = 1
  live : s.readFreed = false

/-- A call on the handle can create a context: the handle is not freed, and the count of its server
does not run over. -/
def CanCreate (s : Client α) (h : ℕ) : Prop :=
  ∀ rep, s.handles[h]? = some rep → rep.freed = 0 ∧ s.held (some rep.rpcAddr) < 255

/-- A call on the handle can give up the context: the handle is not freed, and the maintained
binding that it remembers is on the list for the server of the context. -/
def CanStop (s : Client α) (h : ℕ) (context : CallerContext) : Prop :=
  ∀ rep, s.handles[h]? = some rep → rep.freed = 0 ∧
    ∃ maint ∈ s.maintHead, rep.maintBinding = some maint.shand ∧
      s.addr maint.shand = s.addr context.usingHandle

/-- The events after which the list is right. -/
def Fits (s : Client α) : Event α → Prop
  | .param wire v callerHandle true => ∀ var, s.vars[v]? = some var →
    (wire = 0 → ∀ context, var = some context → CanStop s callerHandle context) ∧
      (wire ≠ 0 → var = none → CanCreate s callerHandle)
  | .param wire v callerHandle false =>
    s.vars[v]? = some none ∧ (wire ≠ 0 → CanCreate s callerHandle)
  | .destroy v => s.vars[v]? = some none
  | _ => True

/-! ### Lists -/

section Lists

variable {β κ : Type*}

theorem findIdx?_split {p : β → Bool} {l : List β} {j : ℕ} (h : l.findIdx? p = some j) :
    ∃ l₁ x l₂, l = l₁ ++ x :: l₂ ∧ j = l₁.length ∧ p x = true := by
  obtain ⟨hlt, hx, -⟩ := List.findIdx?_eq_some_iff_getElem.mp h
  refine ⟨l.take j, l[j], l.drop (j + 1), ?_, ?_, hx⟩
  · rw [← List.drop_eq_getElem_cons hlt, List.take_append_drop]
  · rw [List.length_take, min_eq_left hlt.le]

theorem modify_split (l₁ : List β) (x : β) (l₂ : List β) (f : β → β) :
    (l₁ ++ x :: l₂).modify l₁.length f = l₁ ++ f x :: l₂ := by
  induction l₁ with
  | nil => rfl
  | cons y l₁ ih =>
    rw [List.cons_append, List.length_cons, List.modify_succ_cons, ih]
    rfl

theorem eraseIdx_split (l₁ : List β) (x : β) (l₂ : List β) :
    (l₁ ++ x :: l₂).eraseIdx l₁.length = l₁ ++ l₂ := by
  induction l₁ with
  | nil => rfl
  | cons y l₁ ih =>
    rw [List.cons_append, List.length_cons, List.eraseIdx_cons_succ, ih]
    rfl

/-- One place of the list changes. -/
theorem countP_set_add {p : β → Bool} {l : List β} {v : ℕ} {x y : β} (h : l[v]? = some x) :
    (l.set v y).countP p + (if p x then 1 else 0) = l.countP p + (if p y then 1 else 0) := by
  obtain ⟨hlt, hx⟩ := List.getElem?_eq_some_iff.mp h
  have hpos : p x = true → 0 < l.countP p := fun hp =>
    List.countP_pos_iff.mpr ⟨x, List.mem_of_getElem? h, hp⟩
  rw [List.countP_set hlt, hx]
  by_cases hp : p x = true
  · have := hpos hp
    simp only [hp, if_true]
    omega
  · simp only [hp]
    simp

/-! ### Counts -/

variable {l l₁ l₂ : List (κ × BitVec 8)} {k : κ} {n : BitVec 8} {c c' : κ → ℕ}

theorem Counted.apart (hc : Counted (l₁ ++ (k, n) :: l₂) c) {p : κ × BitVec 8}
    (hp : p ∈ l₁ ∨ p ∈ l₂) : p.1 ≠ k := by
  have hnodup := hc.nodup
  rw [List.map_append, List.map_cons, List.nodup_middle, List.nodup_cons, List.mem_append] at hnodup
  intro hk
  refine hnodup.1 (hp.imp (fun h => ?_) fun h => ?_) <;>
    exact List.mem_map.mpr ⟨p, h, hk⟩

theorem Counted.self (hc : Counted (l₁ ++ (k, n) :: l₂) c) : n.toNat = c k :=
  hc.tally (k, n) (List.mem_append_right _ List.mem_cons_self)

/-- The count of a key that is on the list goes to another value. -/
theorem Counted.replace (hc : Counted (l₁ ++ (k, n) :: l₂) c) {m : BitVec 8}
    (hself : m.toNat = c' k) (hpos : 0 < c' k) (hother : ∀ x, x ≠ k → c' x = c x) :
    Counted (l₁ ++ (k, m) :: l₂) c' where
  nodup := by
    have hnodup := hc.nodup
    rw [List.map_append, List.map_cons] at hnodup ⊢
    exact hnodup
  tally p hp := by
    rcases List.mem_append.mp hp with hp | hp
    · rw [hother p.1 (hc.apart (.inl hp))]
      exact hc.tally p (List.mem_append_left _ hp)
    · rcases List.mem_cons.mp hp with rfl | hp
      · exact hself
      · rw [hother p.1 (hc.apart (.inr hp))]
        exact hc.tally p (List.mem_append_right _ (List.mem_cons_of_mem _ hp))
  mem_iff x := by
    have hmem := hc.mem_iff x
    rw [List.map_append, List.map_cons] at hmem ⊢
    by_cases hx : x = k
    · rw [hx]
      exact iff_of_true (List.mem_append_right _ List.mem_cons_self) hpos
    · rw [hmem, hother x hx]

theorem Counted.cons (hc : Counted l c) (hnew : k ∉ l.map Prod.fst) (hself : c' k = 1)
    (hother : ∀ x, x ≠ k → c' x = c x) : Counted ((k, 1) :: l) c' where
  nodup := List.nodup_cons.mpr ⟨hnew, hc.nodup⟩
  tally p hp := by
    rcases List.mem_cons.mp hp with rfl | hp
    · exact hself.symm
    · rw [hother p.1 fun h => hnew (h ▸ List.mem_map_of_mem hp)]
      exact hc.tally p hp
  mem_iff x := by
    rw [List.map_cons, List.mem_cons]
    by_cases hx : x = k
    · rw [hx, hself]
      simp
    · rw [hother x hx, ← hc.mem_iff x]
      simp [hx]

theorem Counted.erase (hc : Counted (l₁ ++ (k, n) :: l₂) c) (hself : c' k = 0)
    (hother : ∀ x, x ≠ k → c' x = c x) : Counted (l₁ ++ l₂) c' where
  nodup := by
    have hnodup := hc.nodup
    rw [List.map_append, List.map_cons, List.nodup_middle, List.nodup_cons] at hnodup
    rw [List.map_append]
    exact hnodup.2
  tally p hp := by
    have hp' := List.mem_append.mp hp
    rw [hother p.1 (hc.apart hp')]
    refine hc.tally p (List.mem_append.mpr (hp'.imp_right (List.mem_cons_of_mem _)))
  mem_iff x := by
    by_cases hx : x = k
    · rw [hx, hself]
      refine iff_of_false (fun hmem => ?_) (lt_irrefl 0)
      obtain ⟨p, hp, rfl⟩ := List.mem_map.mp hmem
      exact hc.apart (List.mem_append.mp hp) rfl
    · rw [hother x hx, ← hc.mem_iff x, List.map_append, List.map_append, List.map_cons,
        List.mem_append, List.mem_append, List.mem_cons]
      simp [hx]

end Lists

/-! ### What stays -/

/-- Contexts and list elements have copies that were made for them. -/
structure Valid (s : Client α) : Prop where
  vars : ∀ context, some context ∈ s.vars →
    ∃ rep, s.handles[context.usingHandle]? = some rep ∧ rep.use = .context
  elts : ∀ maint ∈ s.maintHead, ∃ rep, s.handles[maint.shand]? = some rep ∧ rep.use = .maintElt

/-- Handles keep their addresses. -/
def Extends (s t : Client α) : Prop :=
  ∀ (h : ℕ) (rep : BindingRep α), s.handles[h]? = some rep →
    ∃ rep' : BindingRep α, t.handles[h]? = some rep' ∧ rep'.rpcAddr = rep.rpcAddr ∧ rep'.use = rep.use

omit [DecidableEq α] in
theorem Extends.addr (hex : Extends s t) {rep : BindingRep α} (hh : s.handles[h]? = some rep) :
    t.addr h = s.addr h := by
  obtain ⟨rep', hrep', haddr, -⟩ := hex h rep hh
  rw [Client.addr, Client.addr, hh, hrep', Option.map_some, Option.map_some, haddr]

omit [DecidableEq α] in
theorem Extends.addr_using (hex : Extends s t) (hv : Valid s) {context : CallerContext}
    (hmem : some context ∈ s.vars) : t.addr context.usingHandle = s.addr context.usingHandle := by
  obtain ⟨rep, hrep, -⟩ := hv.vars context hmem
  exact hex.addr hrep

omit [DecidableEq α] in
theorem Extends.addr_shand (hex : Extends s t) (hv : Valid s) {maint : MaintElt}
    (hmem : maint ∈ s.maintHead) : t.addr maint.shand = s.addr maint.shand := by
  obtain ⟨rep, hrep, -⟩ := hv.elts maint hmem
  exact hex.addr hrep

omit [DecidableEq α] in
theorem extends_append {reps : List (BindingRep α)} (ht : t.handles = s.handles ++ reps) :
    Extends s t := by
  intro h rep hh
  refine ⟨rep, ?_, rfl, rfl⟩
  rw [ht, List.getElem?_append_left (List.getElem?_eq_some_iff.mp hh).1, hh]

omit [DecidableEq α] in
theorem extends_modify {f : BindingRep α → BindingRep α} {i : ℕ}
    (hf : ∀ rep, (f rep).rpcAddr = rep.rpcAddr ∧ (f rep).use = rep.use)
    (ht : t.handles = s.handles.modify i f) : Extends s t := by
  intro h rep hh
  refine ⟨if i = h then f rep else rep, ?_, ?_⟩
  · rw [ht, List.getElem?_modify, hh]
    split <;> rfl
  · split
    · exact hf rep
    · exact ⟨rfl, rfl⟩

omit [DecidableEq α] in
theorem extends_setMaint {shand : Option ℕ} {i : ℕ}
    (ht : t.handles = s.handles.modify i (setMaint shand)) : Extends s t :=
  extends_modify (f := setMaint shand) (fun _ => ⟨rfl, rfl⟩) ht

omit [DecidableEq α] in
theorem extends_freeRep {i : ℕ} (ht : t.handles = s.handles.modify i freeRep) : Extends s t :=
  extends_modify (f := freeRep) (fun _ => ⟨rfl, rfl⟩) ht

omit [DecidableEq α] in
theorem Extends.trans {r : Client α} (h₁ : Extends s t) (h₂ : Extends t r) : Extends s r := by
  intro h rep hh
  obtain ⟨rep', hh', haddr, huse⟩ := h₁ h rep hh
  obtain ⟨rep'', hh'', haddr', huse'⟩ := h₂ h rep' hh'
  exact ⟨rep'', hh'', haddr'.trans haddr, huse'.trans huse⟩

omit [DecidableEq α] in
theorem Valid.of_extends (hv : Valid s) (hex : Extends s t)
    (hvars : ∀ context, some context ∈ t.vars → some context ∈ s.vars ∨
      ∃ rep, t.handles[context.usingHandle]? = some rep ∧ rep.use = .context)
    (helts : ∀ maint ∈ t.maintHead, (∃ maint' ∈ s.maintHead, maint.shand = maint'.shand) ∨
      ∃ rep, t.handles[maint.shand]? = some rep ∧ rep.use = .maintElt) : Valid t where
  vars context hmem := by
    rcases hvars context hmem with hold | hnew
    · obtain ⟨rep, hrep, huse⟩ := hv.vars context hold
      obtain ⟨rep', hrep', -, huse'⟩ := hex _ rep hrep
      exact ⟨rep', hrep', huse'.trans huse⟩
    · exact hnew
  elts maint hmem := by
    rcases helts maint hmem with ⟨maint', hold, hshand⟩ | hnew
    · obtain ⟨rep, hrep, huse⟩ := hv.elts maint' hold
      obtain ⟨rep', hrep', -, huse'⟩ := hex _ rep hrep
      exact ⟨rep', by rw [hshand, hrep'], huse'.trans huse⟩
    · exact hnew

/-- Whether a variable holds a context of the server. -/
def ofServer (s : Client α) (a : Option α) (var : Option CallerContext) : Bool :=
  var.any fun context => s.addr context.usingHandle = a

def hasHandle (h : ℕ) (var : Option CallerContext) : Bool :=
  var.any fun context => context.usingHandle = h

theorem held_set (hex : Extends s t) (hv : Valid s) {x y : Option CallerContext}
    (hx : s.vars[v]? = some x) (hvars : t.vars = s.vars.set v y) (a : Option α) :
    t.held a + (if ofServer s a x then 1 else 0) = s.held a + if ofServer t a y then 1 else 0 := by
  have hcongr : ∀ var ∈ s.vars, ofServer t a var = ofServer s a var := by
    rintro (_ | context) hmem
    · rfl
    · simp only [ofServer, Option.any_some, hex.addr_using hv hmem]
  have hheld : s.held a = s.vars.countP (ofServer t a) :=
    List.countP_congr fun var hmem => by rw [hcongr var hmem]; rfl
  have hset := countP_set_add (p := ofServer t a) (y := y) hx
  rw [hcongr x (List.mem_of_getElem? hx)] at hset
  rw [hheld, ← hset, ← hvars]
  rfl

theorem held_same (hex : Extends s t) (hv : Valid s) (hvars : t.vars = s.vars) (a : Option α) :
    t.held a = s.held a := by
  rw [Client.held, Client.held, hvars]
  refine List.countP_congr fun var hmem => ?_
  rcases var with _ | context
  · rfl
  · simp only [Option.any_some, hex.addr_using hv hmem]

omit [DecidableEq α] in
theorem entries_eq (hex : Extends s t) {l : List MaintElt} (hl : ∀ maint ∈ l, ∃ maint' ∈ s.maintHead,
      maint.shand = maint'.shand) (hv : Valid s) :
    (l.map fun maint => (t.addr maint.shand, maint.refcnt)) =
      l.map fun maint => (s.addr maint.shand, maint.refcnt) := by
  refine List.map_congr_left fun maint hmem => ?_
  obtain ⟨maint', hmem', hshand⟩ := hl maint hmem
  rw [hshand, hex.addr_shand hv hmem']

/-- While the thread runs for a list that is not empty, INDYs go where they should. -/
theorem indys_of_running (hlist : Counted s.entries s.held)
    (hrun : s.maintHead ≠ [] → s.maintainThreadRunning = true) (a : Option α) :
    a ∈ indyTargets s ↔ 0 < s.held a := by
  rw [← hlist.mem_iff, Client.entries, List.map_map]
  unfold indyTargets
  rcases hcase : s.maintainThreadRunning with _ | _
  · have hnil : s.maintHead = [] := by
      by_contra hne
      rw [hrun hne] at hcase
      cases hcase
    simp [hnil]
  · rfl

theorem Sound.running (hs : Sound s) (hne : s.maintHead ≠ []) :
    s.maintainThreadRunning = true := by
  obtain ⟨maint, rest, heq⟩ := List.exists_cons_of_ne_nil hne
  have hmem : s.addr maint.shand ∈ s.entries.map Prod.fst := by
    rw [Client.entries, heq]
    exact List.mem_cons_self
  have hindy := (hs.indys _).mpr ((hs.list.mem_iff _).mp hmem)
  unfold indyTargets at hindy
  split at hindy
  · assumption
  · cases hindy

/-! ### Creating a context -/

variable {rep : BindingRep α} {x : Option CallerContext} {wire : BitVec 128}

omit [DecidableEq α] in
theorem modify_last (l : List (BindingRep α)) (y : BindingRep α) (l₂ : List (BindingRep α))
    (f : BindingRep α → BindingRep α) :
    (l ++ y :: l₂).modify l.length f = l ++ f y :: l₂ := modify_split l y l₂ f

/-- A context is made on a copy of the handle, and the count of its server is raised, or the server
is put onto the list with another copy. -/
theorem createCallerContext_spec (hval : Valid s) (hrep : s.handles[h]? = some rep)
    (hcall : createCallerContext s wire h v = some t) :
    (∃ l₁ maint l₂, s.maintHead = l₁ ++ maint :: l₂ ∧ s.addr maint.shand = some rep.rpcAddr ∧
      t = { s with
        handles := s.handles ++ [⟨rep.rpcAddr, .context, some maint.shand, 0⟩]
        maintHead := l₁ ++ { maint with refcnt := maint.refcnt + 1 } :: l₂
        vars := s.vars.set v (some ⟨wire, s.handles.length⟩)
        readFreed := s.readFreed || rep.freed ≠ 0 }) ∨
    (∀ maint ∈ s.maintHead, s.addr maint.shand ≠ some rep.rpcAddr) ∧
      t = { s with
        handles := s.handles ++ [⟨rep.rpcAddr, .context, some (s.handles.length + 1), 0⟩,
          ⟨rep.rpcAddr, .maintElt, none, 0⟩]
        maintHead := ⟨s.handles.length + 1, 1⟩ :: s.maintHead
        maintainThreadRunning := true
        vars := s.vars.set v (some ⟨wire, s.handles.length⟩)
        readFreed := s.readFreed || rep.freed ≠ 0 } := by
  have hlast : (s.handles ++ [({ rpcAddr := rep.rpcAddr, use := .context } : BindingRep α)])[
      s.handles.length]? = some { rpcAddr := rep.rpcAddr, use := .context } :=
    List.getElem?_concat_length
  have haddr : ∀ maint ∈ s.maintHead, Client.addr { s with
      handles := s.handles ++ [({ rpcAddr := rep.rpcAddr, use := .context } : BindingRep α)] }
        maint.shand = s.addr maint.shand := fun maint hmem =>
    (extends_append rfl : Extends s { s with
      handles := s.handles ++ [({ rpcAddr := rep.rpcAddr, use := .context } : BindingRep α)] }).addr_shand
        hval hmem
  simp only [createCallerContext, bindingCopy, hrep, Option.bind_eq_bind, Option.bind_some] at hcall
  rw [networkMaint] at hcall
  simp only [hlast, Option.bind_eq_bind, Option.bind_some] at hcall
  split at hcall
  · next j hj =>
    obtain ⟨l₁, maint, l₂, heq, rfl, hp⟩ := findIdx?_split hj
    have hmem : maint ∈ s.maintHead := by
      rw [heq]
      exact List.mem_append_right _ List.mem_cons_self
    refine .inl ⟨l₁, maint, l₂, heq, ?_, ?_⟩
    · rw [← haddr maint hmem]
      exact of_decide_eq_true hp
    · rw [heq, List.getElem?_append_right le_rfl, Nat.sub_self, List.getElem?_cons_zero,
        Option.bind_some, Option.some_inj, modify_last, modify_split] at hcall
      rw [← hcall]
      rfl
  · next hnone =>
    refine .inr ⟨fun maint hmem => ?_, ?_⟩
    · have hp := List.findIdx?_eq_none_iff.mp hnone maint hmem
      rw [← haddr maint hmem]
      exact of_decide_eq_false hp
    · simp only [bindingCopy, hlast, Option.bind_eq_bind, Option.bind_some, Option.some_inj,
        List.append_assoc, List.singleton_append, modify_last, List.length_append,
        List.length_singleton] at hcall
      rw [← hcall]
      simp [setMaint]

omit [DecidableEq α] in
theorem Valid.using_lt (hval : Valid s) {context : CallerContext}
    (hmem : some context ∈ s.vars) : context.usingHandle < s.handles.length := by
  obtain ⟨rep, hrep, -⟩ := hval.vars context hmem
  exact (List.getElem?_eq_some_iff.mp hrep).1

omit [DecidableEq α] in
theorem Valid.shand_lt (hval : Valid s) {maint : MaintElt} (hmem : maint ∈ s.maintHead) :
    maint.shand < s.handles.length := by
  obtain ⟨rep, hrep, -⟩ := hval.elts maint hmem
  exact (List.getElem?_eq_some_iff.mp hrep).1

omit [DecidableEq α] in
/-- Nobody has a handle that is still to be made. -/
theorem owners_fresh (hval : Valid s) {k : ℕ} (hk : s.handles.length ≤ k) : s.owners k = 0 := by
  have hvars : s.vars.countP (hasHandle k) = 0 := by
    refine List.countP_eq_zero.mpr fun var hmem => ?_
    rcases var with _ | context
    · simp [hasHandle]
    · have := hval.using_lt hmem
      simp only [hasHandle, Option.any_some, decide_eq_true_eq]
      omega
  have helts : s.maintHead.countP (fun maint => maint.shand = k) = 0 := by
    refine List.countP_eq_zero.mpr fun maint hmem => ?_
    have := hval.shand_lt hmem
    simp only [decide_eq_true_eq]
    omega
  rw [Client.owners]
  change s.vars.countP (hasHandle k) + _ = 0
  rw [hvars, helts]

/-- A context's handle is owned by the context alone, and not freed. -/
theorem Sound.context_alone (hs : Sound s) (hval : Valid s) {context : CallerContext}
    (hmem : some context ∈ s.vars) :
    ∃ rep, s.handles[context.usingHandle]? = some rep ∧ rep.use = .context ∧ rep.freed = 0 ∧
      s.owners context.usingHandle = 1 := by
  obtain ⟨rep, hrep, huse⟩ := hval.vars context hmem
  have hfreed := hs.freed _ rep hrep (by rw [huse]; decide)
  have hpos : 0 < s.vars.countP (hasHandle context.usingHandle) :=
    List.countP_pos_iff.mpr ⟨some context, hmem, by simp [hasHandle]⟩
  have howners : s.owners context.usingHandle = s.vars.countP (hasHandle context.usingHandle) +
    s.maintHead.countP fun maint => maint.shand = context.usingHandle := rfl
  exact ⟨rep, hrep, huse, by omega, by omega⟩

/-- What a variable that loses its context leaves behind: a handle without an owner, freed only if
the step frees it. -/
theorem Sound.not_lost (hs : Sound s) (hval : Valid s) {context : CallerContext}
    (hmem : some context ∈ s.vars) (ht : Sound t)
    (hkeep : ∀ rep, s.handles[context.usingHandle]? = some rep →
      t.handles[context.usingHandle]? = some rep) :
    t.owners context.usingHandle ≠ 0 := by
  obtain ⟨rep, hrep, huse, hzero, -⟩ := hs.context_alone hval hmem
  have hfreed := ht.freed _ rep (hkeep rep hrep) (by rw [huse]; decide)
  omega

omit [DecidableEq α] in
theorem owners_set {y : Option CallerContext} {k : ℕ} (hx : s.vars[v]? = some x)
    (hvars : t.vars = s.vars.set v y) :
    t.owners k + (if hasHandle k x then 1 else 0) +
        s.maintHead.countP (fun maint => maint.shand = k) =
      s.owners k + (if hasHandle k y then 1 else 0) +
        t.maintHead.countP (fun maint => maint.shand = k) := by
  have hset := countP_set_add (p := hasHandle k) (y := y) hx
  rw [← hvars] at hset
  have hs : s.owners k = s.vars.countP (hasHandle k) +
    s.maintHead.countP fun maint => maint.shand = k := rfl
  have ht : t.owners k = t.vars.countP (hasHandle k) +
    t.maintHead.countP fun maint => maint.shand = k := rfl
  omega

/-- The new handles each have one owner. -/
theorem freed_append (hs : Sound s) (hval : Valid s) {reps : List (BindingRep α)}
    (ht : t.handles = s.handles ++ reps) (hnew : ∀ rep ∈ reps, rep.freed = 0)
    (hown : ∀ k < t.handles.length,
      t.owners k = s.owners k + if s.handles.length ≤ k then 1 else 0) (k : ℕ)
    (rep' : BindingRep α) (hrep' : t.handles[k]? = some rep') (huse : rep'.use ≠ .application) :
    rep'.freed + t.owners k = 1 := by
  have hlt := (List.getElem?_eq_some_iff.mp hrep').1
  rw [hown k hlt]
  rw [ht] at hrep'
  rcases Nat.lt_or_ge k s.handles.length with hk | hk
  · rw [List.getElem?_append_left hk] at hrep'
    rw [if_neg hk.not_ge]
    exact hs.freed k rep' hrep' huse
  · rw [List.getElem?_append_right hk] at hrep'
    rw [if_pos hk, owners_fresh hval hk, hnew rep' (List.mem_of_getElem? hrep')]

/-- A context that was in the variable would be lost. -/
theorem empty_of_sound (hs : Sound s) (hval : Valid s) {reps : List (BindingRep α)}
    (hx : s.vars[v]? = some x) (ht : t.handles = s.handles ++ reps)
    (hown : ∀ k < s.handles.length, t.owners k + (if hasHandle k x then 1 else 0) = s.owners k)
    (hst : Sound t) : x = none := by
  have hmem := List.mem_of_getElem? hx
  rcases x with _ | context
  · rfl
  · refine absurd ?_ (hs.not_lost hval hmem hst fun rep' hrep' => ?_)
    · have hself := hown context.usingHandle (hval.using_lt hmem)
      obtain ⟨-, -, -, -, hone⟩ := hs.context_alone hval hmem
      simp only [hasHandle, Option.any_some, decide_true, if_true] at hself
      omega
    · rw [ht, List.getElem?_append_left (hval.using_lt hmem), hrep']

/-- Creating a context of a server that is on the list. -/
theorem step_create_listed (hs : Sound s) (hval : Valid s) (hx : s.vars[v]? = some x)
    (hrep : s.handles[h]? = some rep) {l₁ l₂ : List MaintElt} {maint : MaintElt}
    (heq : s.maintHead = l₁ ++ maint :: l₂) (haddr : s.addr maint.shand = some rep.rpcAddr)
    (ht : t = { s with
      handles := s.handles ++ [⟨rep.rpcAddr, .context, some maint.shand, 0⟩]
      maintHead := l₁ ++ { maint with refcnt := maint.refcnt + 1 } :: l₂
      vars := s.vars.set v (some ⟨wire, s.handles.length⟩)
      readFreed := s.readFreed || rep.freed ≠ 0 }) :
    (x = none → CanCreate s h → Sound t ∧ Valid t) ∧ (Sound t → x = none ∧ CanCreate s h) := by
  have hhandles : t.handles = s.handles ++ [⟨rep.rpcAddr, .context, some maint.shand, 0⟩] := by
    rw [ht]
  have hex : Extends s t := extends_append hhandles
  have hlast : t.handles[s.handles.length]? =
      some ⟨rep.rpcAddr, .context, some maint.shand, 0⟩ := by
    rw [hhandles, List.getElem?_concat_length]
  have hself : t.addr s.handles.length = some rep.rpcAddr := by
    rw [Client.addr, hlast, Option.map_some]
  have hvars : t.vars = s.vars.set v (some ⟨wire, s.handles.length⟩) := by rw [ht]
  have hhead : t.maintHead = l₁ ++ { maint with refcnt := maint.refcnt + 1 } :: l₂ := by rw [ht]
  have hlive : t.readFreed = (s.readFreed || rep.freed ≠ 0) := by rw [ht]
  have hheld := held_set hex hval hx hvars
  simp only [ofServer, Option.any_some, hself, decide_eq_true_eq] at hheld
  have howners : ∀ k, t.owners k + (if hasHandle k x then 1 else 0) =
      s.owners k + if s.handles.length = k then 1 else 0 := by
    intro k
    have hset := owners_set (k := k) hx hvars
    have helts : t.maintHead.countP (fun maint => maint.shand = k) =
        s.maintHead.countP fun maint => maint.shand = k := by
      rw [heq, hhead]
      simp only [List.countP_append, List.countP_cons]
    simp only [hasHandle, Option.any_some, decide_eq_true_eq] at hset ⊢
    omega
  have hold : ∀ maint' ∈ t.maintHead, ∃ maint'' ∈ s.maintHead, maint'.shand = maint''.shand := by
    intro maint' hmem
    rw [hhead] at hmem
    rw [heq]
    rcases List.mem_append.mp hmem with hmem | hmem
    · exact ⟨maint', List.mem_append_left _ hmem, rfl⟩
    · rcases List.mem_cons.mp hmem with rfl | hmem
      · exact ⟨maint, List.mem_append_right _ List.mem_cons_self, rfl⟩
      · exact ⟨maint', List.mem_append_right _ (List.mem_cons_of_mem _ hmem), rfl⟩
  have hentries : t.entries = (l₁.map fun maint => (s.addr maint.shand, maint.refcnt)) ++
      (some rep.rpcAddr, maint.refcnt + 1) ::
        l₂.map fun maint => (s.addr maint.shand, maint.refcnt) := by
    rw [← haddr, Client.entries, entries_eq hex hold hval, hhead]
    simp only [List.map_append, List.map_cons]
  have hlist := hs.list
  rw [Client.entries, heq, List.map_append, List.map_cons, haddr] at hlist
  have hcount := hlist.self
  have hone : (1 : BitVec 8).toNat = 1 := rfl
  constructor
  · rintro rfl hcan
    obtain ⟨hfree, hlt⟩ := hcan rep hrep
    have hheld' : ∀ a, t.held a = s.held a + if some rep.rpcAddr = a then 1 else 0 := by
      intro a
      have := hheld a
      simpa using this
    have hlist' : Counted t.entries t.held := by
      rw [hentries]
      refine hlist.replace ?_ ?_ fun a ha => ?_
      · rw [hheld', if_pos rfl, ← hcount, BitVec.toNat_add, hone]
        omega
      · rw [hheld', if_pos rfl]
        omega
      · rw [hheld', if_neg ha.symm, Nat.add_zero]
    refine ⟨⟨hlist', indys_of_running hlist' fun _ => ?_,
      freed_append hs hval hhandles (fun rep' hmem => ?_) fun k hk => ?_, ?_⟩,
      hval.of_extends hex (fun context hmem => ?_) fun maint' hmem => .inl (hold maint' hmem)⟩
    · rw [ht]
      exact hs.running (by rw [heq]; simp)
    · rw [List.mem_singleton.mp hmem]
    · have hown := howners k
      rw [hhandles, List.length_append, List.length_singleton] at hk
      simp only [hasHandle, Option.any_none, Bool.false_eq_true, if_false, Nat.add_zero] at hown
      rw [hown]
      congr 1
      split_ifs <;> omega
    · rw [hlive, hs.live, hfree]
      rfl
    · rw [hvars] at hmem
      rcases List.mem_or_eq_of_mem_set hmem with hmem | heq'
      · exact .inl hmem
      · cases heq'
        exact .inr ⟨_, hlast, rfl⟩
  · intro hst
    have hnone : x = none := by
      refine empty_of_sound hs hval hx hhandles (fun k hk => ?_) hst
      rw [howners k, if_neg hk.ne', Nat.add_zero]
    refine ⟨hnone, fun rep' hrep' => ?_⟩
    obtain rfl : rep = rep' := Option.some_inj.mp (hrep.symm.trans hrep')
    have hfree := hst.live
    rw [hlive, hs.live, Bool.false_or, decide_eq_false_iff_not, not_not] at hfree
    refine ⟨hfree, ?_⟩
    have hlist' := hst.list
    rw [hentries] at hlist'
    have hcount' := hlist'.self
    have hheld' := hheld (some rep.rpcAddr)
    rw [hnone] at hheld'
    simp only [Option.any_none, Bool.false_eq_true, if_false, if_true, Nat.add_zero] at hheld'
    rw [hheld', ← hcount] at hcount'
    have := (maint.refcnt + 1).isLt
    omega

/-- Creating the first context of a server. -/
theorem step_create_new (hs : Sound s) (hval : Valid s) (hx : s.vars[v]? = some x)
    (hrep : s.handles[h]? = some rep)
    (hnew : ∀ maint ∈ s.maintHead, s.addr maint.shand ≠ some rep.rpcAddr)
    (ht : t = { s with
      handles := s.handles ++ [⟨rep.rpcAddr, .context, some (s.handles.length + 1), 0⟩,
        ⟨rep.rpcAddr, .maintElt, none, 0⟩]
      maintHead := ⟨s.handles.length + 1, 1⟩ :: s.maintHead
      maintainThreadRunning := true
      vars := s.vars.set v (some ⟨wire, s.handles.length⟩)
      readFreed := s.readFreed || rep.freed ≠ 0 }) :
    (x = none → CanCreate s h → Sound t ∧ Valid t) ∧ (Sound t → x = none ∧ CanCreate s h) := by
  have hhandles : t.handles = s.handles ++
      [⟨rep.rpcAddr, .context, some (s.handles.length + 1), 0⟩,
        ⟨rep.rpcAddr, .maintElt, none, 0⟩] := by rw [ht]
  have hex : Extends s t := extends_append hhandles
  have hlast : t.handles[s.handles.length]? =
      some ⟨rep.rpcAddr, .context, some (s.handles.length + 1), 0⟩ := by
    rw [hhandles, List.getElem?_append_right le_rfl, Nat.sub_self]
    rfl
  have hshand : t.handles[s.handles.length + 1]? = some ⟨rep.rpcAddr, .maintElt, none, 0⟩ := by
    rw [hhandles, List.getElem?_append_right (by omega), Nat.add_sub_cancel_left]
    rfl
  have hself : t.addr s.handles.length = some rep.rpcAddr := by
    rw [Client.addr, hlast, Option.map_some]
  have hself' : t.addr (s.handles.length + 1) = some rep.rpcAddr := by
    rw [Client.addr, hshand, Option.map_some]
  have hvars : t.vars = s.vars.set v (some ⟨wire, s.handles.length⟩) := by rw [ht]
  have hhead : t.maintHead = ⟨s.handles.length + 1, 1⟩ :: s.maintHead := by rw [ht]
  have hlive : t.readFreed = (s.readFreed || rep.freed ≠ 0) := by rw [ht]
  have hheld := held_set hex hval hx hvars
  simp only [ofServer, Option.any_some, hself, decide_eq_true_eq] at hheld
  have howners : ∀ k, t.owners k + (if hasHandle k x then 1 else 0) =
      s.owners k + (if s.handles.length = k then 1 else 0) +
        if s.handles.length + 1 = k then 1 else 0 := by
    intro k
    have hset := owners_set (k := k) hx hvars
    rw [hhead, List.countP_cons] at hset
    simp only [hasHandle, Option.any_some, decide_eq_true_eq] at hset ⊢
    omega
  have hentries : t.entries = (some rep.rpcAddr, 1) :: s.entries := by
    rw [Client.entries, hhead, List.map_cons, hself',
      entries_eq hex (fun maint' hmem => ⟨maint', hmem, rfl⟩) hval]
    rfl
  have hfresh : some rep.rpcAddr ∉ s.entries.map Prod.fst := by
    intro hmem
    rw [Client.entries, List.map_map] at hmem
    obtain ⟨maint, hmem, heq⟩ := List.mem_map.mp hmem
    exact hnew maint hmem heq
  have hzero : s.held (some rep.rpcAddr) = 0 :=
    Nat.eq_zero_of_not_pos fun hpos => hfresh ((hs.list.mem_iff _).mpr hpos)
  constructor
  · rintro rfl hcan
    obtain ⟨hfree, -⟩ := hcan rep hrep
    have hheld' : ∀ a, t.held a = s.held a + if some rep.rpcAddr = a then 1 else 0 := by
      intro a
      have := hheld a
      simpa using this
    have hlist' : Counted t.entries t.held := by
      rw [hentries]
      refine hs.list.cons hfresh ?_ fun a ha => ?_
      · rw [hheld', if_pos rfl, hzero]
      · rw [hheld', if_neg ha.symm, Nat.add_zero]
    refine ⟨⟨hlist', indys_of_running hlist' fun _ => ?_,
      freed_append hs hval hhandles (fun rep' hmem => ?_) fun k hk => ?_, ?_⟩,
      hval.of_extends hex (fun context hmem => ?_) fun maint' hmem => ?_⟩
    · rw [ht]
    · simp only [List.mem_cons, List.not_mem_nil, or_false] at hmem
      rcases hmem with rfl | rfl <;> rfl
    · have hown := howners k
      rw [hhandles, List.length_append, List.length_cons, List.length_singleton] at hk
      simp only [hasHandle, Option.any_none, Bool.false_eq_true, if_false, Nat.add_zero] at hown
      rw [hown]
      split_ifs <;> omega
    · rw [hlive, hs.live, hfree]
      rfl
    · rw [hvars] at hmem
      rcases List.mem_or_eq_of_mem_set hmem with hmem | heq'
      · exact .inl hmem
      · cases heq'
        exact .inr ⟨_, hlast, rfl⟩
    · rw [hhead] at hmem
      rcases List.mem_cons.mp hmem with rfl | hmem
      · exact .inr ⟨_, hshand, rfl⟩
      · exact .inl ⟨maint', hmem, rfl⟩
  · intro hst
    refine ⟨empty_of_sound hs hval hx hhandles (fun k hk => ?_) hst, fun rep' hrep' => ?_⟩
    · rw [howners k, if_neg hk.ne', if_neg (by omega), Nat.add_zero]
    · obtain rfl : rep = rep' := Option.some_inj.mp (hrep.symm.trans hrep')
      have hfree := hst.live
      rw [hlive, hs.live, Bool.false_or, decide_eq_false_iff_not, not_not] at hfree
      exact ⟨hfree, by omega⟩

/-- A new context keeps everything right if its handle and its count allow it and its variable
was empty, and only then. -/
theorem step_create (hs : Sound s) (hval : Valid s) (hx : s.vars[v]? = some x)
    (hcall : createCallerContext s wire h v = some t) :
    (x = none → CanCreate s h → Sound t ∧ Valid t) ∧ (Sound t → x = none ∧ CanCreate s h) := by
  have hsome : ∃ rep, s.handles[h]? = some rep := by
    simp only [createCallerContext, bindingCopy, Option.bind_eq_bind, Option.bind_eq_some_iff]
      at hcall
    obtain ⟨-, ⟨rep, hrep, -⟩, -⟩ := hcall
    exact ⟨rep, hrep⟩
  obtain ⟨rep, hrep⟩ := hsome
  rcases createCallerContext_spec hval hrep hcall with ⟨l₁, maint, l₂, heq, haddr, ht⟩ | ⟨hnew, ht⟩
  · exact step_create_listed hs hval hx hrep heq haddr ht
  · exact step_create_new hs hval hx hrep hnew ht

/-! ### Giving a context up -/

variable {context : CallerContext}

omit [DecidableEq α] in
theorem getElem?_modify_split {l : List (BindingRep α)} {f : BindingRep α → BindingRep α}
    {i k : ℕ} {y : BindingRep α} (h : (l.modify i f)[k]? = some y) :
    ∃ x, l[k]? = some x ∧ y = if i = k then f x else x := by
  rw [List.getElem?_modify, Option.map_eq_map, Option.map_eq_some_iff] at h
  obtain ⟨x, hx, rfl⟩ := h
  refine ⟨x, hx, ?_⟩
  split <;> rfl

/-- The state after the maintained binding of a handle was given back. -/
structure Stopped (s t : Client α) (rep : BindingRep α) (l₁ l₂ : List MaintElt)
    (maint : MaintElt) : Prop where
  remembered : rep.maintBinding = some maint.shand
  list : s.maintHead = l₁ ++ maint :: l₂
  ext : Extends s t
  head : t.maintHead =
    if maint.refcnt - 1 = 0 then l₁ ++ l₂ else l₁ ++ { maint with refcnt := maint.refcnt - 1 } :: l₂
  freed : ∀ k rep', t.handles[k]? = some rep' → ∃ rep₀, s.handles[k]? = some rep₀ ∧
    rep'.use = rep₀.use ∧ rep'.freed = rep₀.freed +
      if maint.refcnt - 1 = 0 ∧ maint.shand = k then 1 else 0
  vars : t.vars = s.vars
  running : t.maintainThreadRunning = s.maintainThreadRunning
  live : t.readFreed = (s.readFreed || rep.freed ≠ 0)

omit [DecidableEq α] in
theorem networkStopMaint_spec (hrep : s.handles[h]? = some rep)
    (hcall : networkStopMaint s h = some t) :
    (∃ l₁ l₂ maint, Stopped s t rep l₁ l₂ maint) ∨
    (∀ maint ∈ s.maintHead, rep.maintBinding ≠ some maint.shand) ∧
      t = { s with readFreed := s.readFreed || rep.freed ≠ 0 } := by
  simp only [networkStopMaint, hrep, Option.bind_eq_bind, Option.bind_some] at hcall
  split at hcall
  · next j hj =>
    obtain ⟨l₁, maint, l₂, heq, rfl, hp⟩ := findIdx?_split hj
    rw [heq, List.getElem?_append_right le_rfl, Nat.sub_self, List.getElem?_cons_zero,
      Option.bind_some, modify_split, eraseIdx_split] at hcall
    have hclear : Extends s { s with handles := s.handles.modify h (setMaint none) } :=
      extends_setMaint rfl
    refine .inl ⟨l₁, l₂, maint, ?_⟩
    split at hcall
    · next hlast =>
      cases hcall
      refine ⟨of_decide_eq_true hp, heq, hclear.trans ?_, by rw [if_pos hlast]; rfl, ?_, rfl, rfl,
        rfl⟩
      · exact extends_freeRep rfl
      · intro k rep' hrep'
        obtain ⟨rep₁, hrep₁, rfl⟩ := getElem?_modify_split hrep'
        obtain ⟨rep₀, hrep₀, rfl⟩ := getElem?_modify_split hrep₁
        refine ⟨rep₀, hrep₀, ?_, ?_⟩
        · split <;> split <;> rfl
        · simp only [hlast, true_and]
          split <;> split <;> rfl
    · next hlast =>
      cases hcall
      refine ⟨of_decide_eq_true hp, heq, hclear, by rw [if_neg hlast], ?_, rfl, rfl, rfl⟩
      intro k rep' hrep'
      obtain ⟨rep₀, hrep₀, rfl⟩ := getElem?_modify_split hrep'
      refine ⟨rep₀, hrep₀, ?_, ?_⟩
      · split <;> rfl
      · simp only [hlast, false_and, if_false]
        split <;> rfl
  · next hnone =>
    cases hcall
    refine .inr ⟨fun maint hmem => ?_, rfl⟩
    exact of_decide_eq_false (List.findIdx?_eq_none_iff.mp hnone maint hmem)

/-- The state in which the context is gone, too. -/
def dropContext (s : Client α) (v : ℕ) (context : CallerContext) : Client α :=
  { bindingFree s context.usingHandle with vars := s.vars.set v none }

omit [DecidableEq α] in
theorem extends_dropContext (s : Client α) (v : ℕ) (context : CallerContext) :
    Extends s (dropContext s v context) := extends_freeRep rfl

omit [DecidableEq α] in
theorem freed_dropContext {k : ℕ} {rep' : BindingRep α}
    (hrep' : (dropContext s v context).handles[k]? = some rep') :
    ∃ rep₀, s.handles[k]? = some rep₀ ∧ rep'.use = rep₀.use ∧
      rep'.freed = rep₀.freed + if context.usingHandle = k then 1 else 0 := by
  obtain ⟨rep₀, hrep₀, rfl⟩ := getElem?_modify_split hrep'
  refine ⟨rep₀, hrep₀, ?_, ?_⟩ <;> split <;> rfl

/-- The server of a context that is held is on the list. -/
theorem Sound.listed (hs : Sound s) (hmem : some context ∈ s.vars) :
    ∃ maint ∈ s.maintHead, s.addr maint.shand = s.addr context.usingHandle ∧
      maint.refcnt.toNat = s.held (s.addr context.usingHandle) := by
  have hpos : 0 < s.held (s.addr context.usingHandle) :=
    List.countP_pos_iff.mpr ⟨some context, hmem, by simp⟩
  have hkey := (hs.list.mem_iff _).mpr hpos
  obtain ⟨p, hp, hkey⟩ := List.mem_map.mp hkey
  obtain ⟨maint, hmaint, rfl⟩ := List.mem_map.mp hp
  refine ⟨maint, hmaint, hkey, ?_⟩
  rw [← hkey]
  exact hs.list.tally _ hp

/-- A server that stays on the list as it was has one count too many. -/
theorem not_sound_of_kept (hs : Sound s) (hval : Valid s) (hx : s.vars[v]? = some (some context))
    (hex : Extends s t) (hvars : t.vars = s.vars.set v none)
    (hkept : ∀ maint ∈ s.maintHead, s.addr maint.shand = s.addr context.usingHandle →
      maint ∈ t.maintHead) : ¬ Sound t := by
  intro hst
  have hmem := List.mem_of_getElem? hx
  obtain ⟨maint, hmaint, haddr, hcount⟩ := hs.listed hmem
  have hentry : (t.addr maint.shand, maint.refcnt) ∈ t.entries :=
    List.mem_map_of_mem (hkept maint hmaint haddr)
  have hcount' := hst.list.tally _ hentry
  have hheld := held_set hex hval hx hvars (s.addr context.usingHandle)
  simp only [ofServer, Option.any_some, Option.any_none, decide_true, if_true, Bool.false_eq_true,
    if_false, Nat.add_zero] at hheld
  simp only [hex.addr_shand hval hmaint, haddr] at hcount'
  omega

/-- The server nulled a context: everything stays right if the handle of the call remembers the
list element of the context's server, and only then. -/
theorem step_stop (hs : Sound s) (hval : Valid s) (hx : s.vars[v]? = some (some context))
    (hcall : networkStopMaint s h = some t) :
    (CanStop s h context → Sound (dropContext t v context) ∧ Valid (dropContext t v context)) ∧
      (Sound (dropContext t v context) → CanStop s h context) := by
  have hmem := List.mem_of_getElem? hx
  have hsome : ∃ rep, s.handles[h]? = some rep := by
    simp only [networkStopMaint, Option.bind_eq_bind, Option.bind_eq_some_iff] at hcall
    obtain ⟨rep, hrep, -⟩ := hcall
    exact ⟨rep, hrep⟩
  obtain ⟨rep, hrep⟩ := hsome
  rcases networkStopMaint_spec hrep hcall with ⟨l₁, l₂, maint, hstop⟩ | ⟨hnone, rfl⟩
  · have hex : Extends s (dropContext t v context) :=
      hstop.ext.trans (extends_dropContext t v context)
    have hvars : (dropContext t v context).vars = s.vars.set v none := by
      rw [← hstop.vars]
      rfl
    have hhead : (dropContext t v context).maintHead = t.maintHead := rfl
    have hheld := held_set hex hval hx hvars
    simp only [ofServer, Option.any_some, Option.any_none, decide_eq_true_eq, Bool.false_eq_true,
      if_false, Nat.add_zero] at hheld
    have hold : ∀ maint' ∈ t.maintHead, ∃ maint'' ∈ s.maintHead, maint'.shand = maint''.shand := by
      intro maint' hmem'
      rw [hstop.head] at hmem'
      rw [hstop.list]
      split at hmem'
      · refine ⟨maint', ?_, rfl⟩
        exact List.mem_append.mpr ((List.mem_append.mp hmem').imp_right (List.mem_cons_of_mem _))
      · rcases List.mem_append.mp hmem' with hmem' | hmem'
        · exact ⟨maint', List.mem_append_left _ hmem', rfl⟩
        · rcases List.mem_cons.mp hmem' with rfl | hmem'
          · exact ⟨maint, List.mem_append_right _ List.mem_cons_self, rfl⟩
          · exact ⟨maint', List.mem_append_right _ (List.mem_cons_of_mem _ hmem'), rfl⟩
    have hlist := hs.list
    rw [Client.entries, hstop.list, List.map_append, List.map_cons] at hlist
    have hentries : (dropContext t v context).entries =
        t.maintHead.map fun maint => (s.addr maint.shand, maint.refcnt) :=
      entries_eq hex hold hval
    constructor
    · intro hcan
      obtain ⟨hfree, maint', hmaint', hremembered, haddr⟩ := hcan rep hrep
      have hshand : maint.shand = maint'.shand :=
        Option.some_inj.mp (hstop.remembered.symm.trans hremembered)
      rw [← hshand] at haddr
      rw [haddr] at hlist
      have hcount := hlist.self
      have hone : (1 : BitVec 8).toNat = 1 := rfl
      have hzero : (0 : BitVec 8).toNat = 0 := rfl
      have hself := hheld (s.addr context.usingHandle)
      rw [if_pos rfl] at hself
      have hlow : (maint.refcnt - 1).toNat = maint.refcnt.toNat - 1 := by
        rw [BitVec.toNat_sub, hone]
        have := maint.refcnt.isLt
        omega
      have hother : ∀ a, a ≠ s.addr context.usingHandle →
          (dropContext t v context).held a = s.held a := by
        intro a ha
        have := hheld a
        rwa [if_neg ha.symm, Nat.add_zero] at this
      have hlist' : Counted (dropContext t v context).entries (dropContext t v context).held := by
        rw [hentries, hstop.head]
        split
        · next hlast =>
          have : (maint.refcnt - 1).toNat = 0 := by rw [hlast, hzero]
          rw [List.map_append]
          exact hlist.erase (by omega) hother
        · next hlast =>
          have : (maint.refcnt - 1).toNat ≠ 0 := fun h => hlast (BitVec.eq_of_toNat_eq h)
          rw [List.map_append, List.map_cons]
          dsimp only
          rw [haddr]
          exact hlist.replace (by omega) (by omega) hother
      have howners : ∀ k, (dropContext t v context).owners k +
          (if context.usingHandle = k then 1 else 0) +
          (if maint.refcnt - 1 = 0 ∧ maint.shand = k then 1 else 0) = s.owners k := by
        intro k
        have hset := owners_set (k := k) hx hvars
        rw [hhead, hstop.head, hstop.list] at hset
        simp only [hasHandle, Option.any_some, Option.any_none, Bool.false_eq_true, if_false,
          decide_eq_true_eq, Nat.add_zero] at hset
        by_cases hlast : maint.refcnt - 1 = 0
        · simp only [hlast, if_true, List.countP_append, List.countP_cons, true_and,
            decide_eq_true_eq] at hset ⊢
          omega
        · simp only [hlast, if_false, List.countP_append, List.countP_cons, false_and,
            decide_eq_true_eq] at hset ⊢
          omega
      refine ⟨⟨hlist', indys_of_running hlist' fun hne => ?_, ?_, ?_⟩,
        hval.of_extends hex (fun context' hmem' => .inl ?_) fun maint' hmem' =>
          .inl (hold maint' hmem')⟩
      · change t.maintainThreadRunning = true
        rw [hstop.running]
        refine hs.running ?_
        rw [hstop.list]
        simp
      · intro k rep' hrep' huse
        obtain ⟨rep₁, hrep₁, huse₁, hfreed₁⟩ := freed_dropContext hrep'
        obtain ⟨rep₀, hrep₀, huse₀, hfreed₀⟩ := hstop.freed k rep₁ hrep₁
        have hsum := hs.freed k rep₀ hrep₀ (by rw [← huse₀, ← huse₁]; exact huse)
        have hown := howners k
        omega
      · change t.readFreed = false
        rw [hstop.live, hs.live, hfree]
        rfl
      · rw [hvars] at hmem'
        rcases List.mem_or_eq_of_mem_set hmem' with hmem' | heq
        · exact hmem'
        · cases heq
    · intro hst rep' hrep'
      obtain rfl : rep = rep' := Option.some_inj.mp (hrep.symm.trans hrep')
      have hfree : t.readFreed = false := hst.live
      rw [hstop.live, hs.live, Bool.false_or, decide_eq_false_iff_not, not_not] at hfree
      refine ⟨hfree, maint, ?_, hstop.remembered, ?_⟩
      · rw [hstop.list]
        exact List.mem_append_right _ List.mem_cons_self
      · by_contra hne
        refine not_sound_of_kept hs hval hx hex hvars (fun maint' hmem' haddr' => ?_) hst
        rw [hstop.list] at hmem'
        rw [hhead, hstop.head]
        rcases List.mem_append.mp hmem' with hmem' | hmem'
        · split <;> exact List.mem_append_left _ hmem'
        · rcases List.mem_cons.mp hmem' with rfl | hmem'
          · exact absurd haddr' hne
          · split
            · exact List.mem_append_right _ hmem'
            · exact List.mem_append_right _ (List.mem_cons_of_mem _ hmem')
  · -- the handle remembers no element of the list
    constructor
    · intro hcan
      obtain ⟨-, maint, hmaint, hremembered, -⟩ := hcan rep hrep
      exact absurd hremembered (hnone maint hmaint)
    · intro hst
      have hex : Extends s (dropContext { s with readFreed := s.readFreed || rep.freed ≠ 0 } v
          context) := extends_dropContext s v context
      exact absurd hst (not_sound_of_kept hs hval hx hex rfl fun _ hmaint _ => hmaint)

/-! ### Histories -/

/-- A step that changes no variable, no list element and no handle that is there. -/
theorem Sound.of_same (hs : Sound s) (hval : Valid s) {reps : List (BindingRep α)}
    (hhandles : t.handles = s.handles ++ reps) (huse : ∀ rep ∈ reps, rep.use = .application)
    (hheld : ∀ a, t.held a = s.held a) (howners : ∀ k, t.owners k = s.owners k)
    (hhead : t.maintHead = s.maintHead)
    (hrun : t.maintHead ≠ [] → t.maintainThreadRunning = true)
    (hlive : t.readFreed = s.readFreed) : Sound t := by
  have hentries : t.entries = s.entries := by
    rw [Client.entries, hhead]
    exact entries_eq (extends_append hhandles) (fun maint hmem => ⟨maint, hmem, rfl⟩) hval
  have hlist := hs.list
  rw [← hentries, ← funext hheld] at hlist
  refine ⟨hlist, fun a => indys_of_running hlist hrun a, fun k rep hrep hne => ?_,
    hlive.trans hs.live⟩
  rw [howners]
  rw [hhandles] at hrep
  rcases Nat.lt_or_ge k s.handles.length with hk | hk
  · rw [List.getElem?_append_left hk] at hrep
    exact hs.freed k rep hrep hne
  · rw [List.getElem?_append_right hk] at hrep
    exact absurd (huse rep (List.mem_of_getElem? hrep)) hne

theorem sound_bind (hs : Sound s) (hval : Valid s) (a : α) :
    Sound { s with handles := s.handles ++ [({ rpcAddr := a, use := .application })] } ∧
      Valid { s with handles := s.handles ++ [({ rpcAddr := a, use := .application })] } := by
  have hex : Extends s { s with
      handles := s.handles ++ [({ rpcAddr := a, use := .application })] } := extends_append rfl
  refine ⟨hs.of_same hval rfl (fun rep hmem => by rw [List.mem_singleton.mp hmem])
    (held_same hex hval rfl) (fun _ => rfl) rfl (fun hne => hs.running hne) rfl,
    hval.of_extends hex (fun context hmem => .inl hmem) fun maint hmem => .inl ⟨maint, hmem, rfl⟩⟩

theorem sound_declare (hs : Sound s) (hval : Valid s) :
    Sound { s with vars := s.vars ++ [none] } ∧ Valid { s with vars := s.vars ++ [none] } := by
  refine ⟨hs.of_same hval (List.append_nil _).symm (fun _ hmem => (List.not_mem_nil hmem).elim)
    (fun a => ?_) (fun k => ?_) rfl (fun hne => hs.running hne) rfl, ?_, hval.elts⟩
  · change (s.vars ++ [none]).countP (ofServer s a) = s.vars.countP (ofServer s a)
    rw [List.countP_append]
    rfl
  · change (s.vars ++ [none]).countP (hasHandle k) + _ = s.vars.countP (hasHandle k) + _
    rw [List.countP_append]
    rfl
  · intro context hmem
    refine hval.vars context ?_
    simpa using hmem

theorem sound_pass (hs : Sound s) (hval : Valid s) :
    Sound (maintainPass s) ∧ Valid (maintainPass s) := by
  unfold maintainPass
  split
  · next hidle =>
    exact ⟨hs.of_same hval (List.append_nil _).symm (fun _ hmem => (List.not_mem_nil hmem).elim)
      (fun _ => rfl) (fun _ => rfl) rfl (fun hne => absurd hidle.2 hne) rfl, hval.vars, hval.elts⟩
  · exact ⟨hs, hval⟩

omit [DecidableEq α] in
/-- A variable that holds nothing is emptied. -/
theorem set_none_self (hx : s.vars[v]? = some none) : s.vars.set v none = s.vars := by
  obtain ⟨hlt, hx⟩ := List.getElem?_eq_some_iff.mp hx
  rw [← hx, List.set_getElem_self]

/-- A variable cannot be emptied, unless it holds nothing. -/
theorem step_forget (hs : Sound s) (hval : Valid s) (hx : s.vars[v]? = some x) :
    (x = none → { s with vars := s.vars.set v none } = s) ∧
      (Sound { s with vars := s.vars.set v none } → x = none) := by
  constructor
  · rintro rfl
    rw [set_none_self hx]
  · refine empty_of_sound hs hval hx (List.append_nil s.handles).symm fun k _ => ?_
    have hset := owners_set (k := k) (t := { s with vars := s.vars.set v none }) hx rfl
    simp only [hasHandle, Option.any_none, Bool.false_eq_true, if_false, Nat.add_zero] at hset ⊢
    omega

/-- One event keeps everything right if it fits, and only then. -/
theorem step_sound_iff (hs : Sound s ∧ Valid s) (ev : Event α) (h : step s ev = some t) :
    (Fits s ev → Sound t ∧ Valid t) ∧ (Sound t ↔ Fits s ev) := by
  obtain ⟨hs, hval⟩ := hs
  have hiff : (Fits s ev → Sound t ∧ Valid t) ∧ (Sound t → Fits s ev) →
      (Fits s ev → Sound t ∧ Valid t) ∧ (Sound t ↔ Fits s ev) :=
    fun ⟨hto, hof⟩ => ⟨hto, hof, fun hfits => (hto hfits).1⟩
  refine hiff ?_
  cases ev with
  | bind a =>
    cases h
    exact ⟨fun _ => sound_bind hs hval a, fun _ => trivial⟩
  | declare =>
    cases h
    exact ⟨fun _ => sound_declare hs hval, fun _ => trivial⟩
  | pass =>
    cases h
    exact ⟨fun _ => sound_pass hs hval, fun _ => trivial⟩
  | destroy v =>
    obtain ⟨x, hx, h⟩ := Option.bind_eq_some_iff.mp h
    cases h
    obtain ⟨hto, hof⟩ := step_forget hs hval hx
    constructor
    · intro hfits
      rw [hto (Option.some_inj.mp (hx.symm.trans hfits))]
      exact ⟨hs, hval⟩
    · intro hst
      have hnone := hof hst
      rw [hnone] at hx
      exact hx
  | param wire v callerHandle inOut =>
    rw [step] at h
    split at h
    swap
    · cases h
    obtain ⟨x, hx, h⟩ := Option.bind_eq_some_iff.mp h
    cases inOut with
    | true =>
      have hfits : Fits s (.param wire v callerHandle true) ↔
          (wire = 0 → ∀ context, x = some context → CanStop s callerHandle context) ∧
            (wire ≠ 0 → x = none → CanCreate s callerHandle) := by
        simp only [Fits, hx, Option.some_inj, forall_eq']
      rw [hfits]
      simp only [if_true] at h
      split at h
      · next hnil =>
        split at h
        · next context =>
          obtain ⟨r, hr, h⟩ := Option.bind_eq_some_iff.mp h
          have hdrop : t = dropContext r v context := (Option.some_inj.mp h).symm
          obtain ⟨hto, hof⟩ := step_stop hs hval hx hr
          rw [hdrop]
          refine ⟨fun hcan => hto (hcan.1 hnil context rfl), fun hst => ⟨fun _ context' heq => ?_,
            fun hne => absurd hnil hne⟩⟩
          cases heq
          exact hof hst
        · cases h
          exact ⟨fun _ => ⟨hs, hval⟩, fun _ => ⟨fun _ context heq => (nomatch heq),
            fun hne => absurd hnil hne⟩⟩
      · next hnil =>
        split at h
        · cases h
          exact ⟨fun _ => ⟨hs, hval⟩, fun _ => ⟨fun heq => absurd heq hnil,
            fun _ heq => (nomatch heq)⟩⟩
        · obtain ⟨hto, hof⟩ := step_create hs hval hx h
          exact ⟨fun hcan => hto rfl (hcan.2 hnil rfl), fun hst => ⟨fun heq => absurd heq hnil,
            fun _ _ => (hof hst).2⟩⟩
    | false =>
      have hfits : Fits s (.param wire v callerHandle false) ↔
          x = none ∧ (wire ≠ 0 → CanCreate s callerHandle) := by
        simp only [Fits, hx, Option.some_inj]
      rw [hfits]
      simp only [Bool.false_eq_true, if_false] at h
      split at h
      · next hnil =>
        cases h
        obtain ⟨hto, hof⟩ := step_forget hs hval hx
        constructor
        · rintro ⟨hnone, -⟩
          rw [hto hnone]
          exact ⟨hs, hval⟩
        · exact fun hst => ⟨hof hst, fun hne => absurd hnil hne⟩
      · next hnil =>
        obtain ⟨hto, hof⟩ := step_create hs hval hx h
        exact ⟨fun hcan => hto hcan.1 (hcan.2 hnil), fun hst => ⟨(hof hst).1, fun _ => (hof hst).2⟩⟩

theorem sound_init : Sound ({} : Client α) where
  list := ⟨List.nodup_nil, fun _ hp => (List.not_mem_nil hp).elim,
    fun _ => iff_of_false (fun hp => List.not_mem_nil hp) (lt_irrefl 0)⟩
  indys _ := iff_of_false (fun hp => List.not_mem_nil hp) (lt_irrefl 0)
  freed _ _ hrep := nomatch hrep
  live := rfl

omit [DecidableEq α] in
theorem valid_init : Valid ({} : Client α) :=
  ⟨fun _ hmem => (List.not_mem_nil hmem).elim, fun _ hmem => (List.not_mem_nil hmem).elim⟩

/-- In all states of a history servers are kept informed exactly while contexts of them are held,
if and only if all events of the history fit. -/
theorem sound_iff_fits (evs : List (Event α)) :
    (∀ n t, exec step {} (evs.take n) = some t → Sound t) ↔
      Along step (fun s ev => (step s ev).isSome → Fits s ev) {} evs :=
  forall_reached_iff_along (fun _ ev _ hs h => step_sound_iff hs ev h) ⟨sound_init, valid_init⟩
    sound_init

/-- A context that is made on a binding, and nulled in a call on the same binding. -/
def nulledOps : List (Event ℕ) :=
  [.bind 7, .declare, .param 1 0 0 true, .param 0 0 0 true]

/-- The server stays on the list after its only context is gone. -/
theorem not_sound :
    ¬ ∀ (evs : List (Event ℕ)) (t : Client ℕ), exec step {} evs = some t →
      ∀ a, (∃ maint ∈ t.maintHead, t.addr maint.shand = some a) ↔ 0 < t.held (some a) := by
  intro h
  have hlist : (exec step {} nulledOps).map (fun t =>
      (t.maintHead.map fun maint => t.addr maint.shand, t.held (some 7))) =
        some ([some 7], 0) := by decide
  obtain ⟨t, ht, heq⟩ := Option.map_eq_some_iff.mp hlist
  obtain ⟨hhead, hheld⟩ := Prod.mk.inj heq
  obtain ⟨maint, hmem, haddr⟩ := List.mem_map.mp
    (show some 7 ∈ t.maintHead.map fun maint => t.addr maint.shand by rw [hhead]; decide)
  have hpos := (h nulledOps t ht 7).mp ⟨maint, hmem, haddr⟩
  rw [hheld] at hpos
  exact absurd hpos (lt_irrefl 0)

end Maint

end Dg
