/-
The queue of fragments of an association (cnassoc.c, rpclist.h).

The receiver thread queues fragments, the threads of calls wait for them.  An element without data,
which is part of the association, is queued to wake a thread up.

* `addTail_spec`, `removeHead_spec` — the list macros on a list that is in order;
* `inv_step` — one step of the association;
* `msgQueue_sound` — what holds in every run that does not queue the element without data twice;
  `not_ok_with_frag` has a wakeup without a fragment and a fragment that is lost.
-/
import FreeDce.Lib.DoublyLinked
import FreeDce.Lib.Runs

namespace Cn

namespace MsgQueue

open Runs Pointers

/-! ### Data -/

/-- What starts with an `rpc_list_t`: `msg_list`, `assoc_dummy_fragbuf` and the fragments, numbered
in the order in which they are queued. -/
inductive Node
  | msgList
  | dummyFragbuf
  | frag (n : ℕ)
deriving DecidableEq, Repr

def Node.frag? : Node → Option ℕ
  | .frag n => some n
  | _ => none

/-- The fields of the `rpc_list_t`. -/
structure Links where
  next : Node → Option Node := fun _ => none
  last : Node → Option Node := fun _ => none

inductive Status
  | ok
  | callOrphaned
  | error (code : ℕ)
deriving DecidableEq, Repr

/-- What became of an element, or of a call of `rpc__cn_assoc_receive_frag`: `call` is the call that
was on the association then. -/
inductive Outcome
  | received (fragbuf : Option Node) (st : Status) (call : Option ℕ)
  | freed (n : ℕ)
deriving DecidableEq, Repr

def Outcome.frag? : Outcome → Option ℕ
  | .received fragbuf _ _ => fragbuf.bind Node.frag?
  | .freed n => some n

/-- `waiting` gives the call that a thread in the wait has saved, `queued` the calls of the fragments
that were queued. -/
structure State where
  links : Links := {}
  assocStatus : Status := .ok
  callRep : Option ℕ := none
  waiting : ℕ → Option (Option ℕ) := fun _ => none
  queued : List ℕ := []
  history : List Outcome := []

/-! ### The list macros -/

/-- `RPC_LIST_INIT`. -/
def listInit (m : Links) : Links where
  next := Function.update m.next .msgList none
  last := Function.update m.last .msgList none

/-- `RPC_LIST_ADD_TAIL`; `none` is a write through NULL. -/
def addTail (m : Links) (x : Node) : Option Links :=
  let m' : Option Links :=
    if m.next .msgList = none then
      some {
        next := Function.update m.next .msgList (some x)
        last := Function.update m.last x (some .msgList) }
    else
      (m.last .msgList).map fun y => {
        next := Function.update m.next y (some x)
        last := Function.update m.last x (m.last .msgList) }
  m'.map fun m' => {
    next := Function.update m'.next x none
    last := Function.update m'.last .msgList (some x) }

/-- `RPC_LIST_REMOVE`. -/
def listRemove (m : Links) (x : Node) : Option Links :=
  if m.last .msgList = m.next .msgList then some (listInit m)
  else
    let last := match m.next x with
      | none => Function.update m.last .msgList (m.last x)
      | some y => Function.update m.last y (m.last x)
    (last x).map fun z => { next := Function.update m.next z (m.next x), last := last }

/-- `RPC_LIST_REMOVE_HEAD`. -/
def removeHead (m : Links) : Option (Option Node × Links) :=
  match m.next .msgList with
  | none => some (none, m)
  | some x => (listRemove m x).map fun m' => (some x, m')

/-- The elements that are met on the way along `next`. -/
def walk (next : Node → Option Node) : ℕ → Option Node → List Node
  | 0, _ => []
  | _ + 1, none => []
  | fuel + 1, some x => x :: walk next fuel (next x)

/-- The queue: there are no more elements than the fragments and the one without data. -/
def State.msgList (s : State) : List Node :=
  walk s.links.next (s.queued.length + 1) (s.links.next .msgList)

/-! ### The operations -/

/-- The elements of the queue are freed; the one without data has no `fragbuf_dealloc`. -/
def flush (s : State) : State :=
  { s with
    links := listInit s.links
    history := s.history ++ (s.msgList.filterMap Node.frag?).map .freed }

/-- The loop of `rpc__cn_assoc_receive_frag` from its head on, and what follows it. -/
def receiveFrag (s : State) (t : ℕ) : Option State :=
  if s.assocStatus = .ok ∧ s.links.next .msgList = none then
    some { s with waiting := Function.update s.waiting t (some s.callRep) }
  else
    (removeHead s.links).map fun (fragbuf, links) => { s with
      links := links
      waiting := Function.update s.waiting t none
      history := s.history ++ [.received fragbuf s.assocStatus s.callRep] }

/-- The return out of the loop. -/
def giveUp (s : State) (t : ℕ) (st : Status) : State :=
  { s with
    waiting := Function.update s.waiting t none
    history := s.history ++ [.received none st s.callRep] }

/-- The loop after the wait.  `cancelled` is the status of a cancel that is not to be retried. -/
def afterWait (s : State) (t : ℕ) (callRep : Option ℕ) (cancelled : Option ℕ) : Option State :=
  if callRep ≠ s.callRep then some (giveUp s t .callOrphaned)
  else match cancelled with
    | some code => some (giveUp s t (.error code))
    | none => receiveFrag s t

/-- `rpc__cn_assoc_pop_call` and `rpc__cn_assoc_dealloc` at the end of a call: the queue is left to
another call that is on the association. -/
def endCall (s : State) (call : ℕ) : State :=
  let s := { s with
    assocStatus := .ok
    callRep := if s.callRep = some call then none else s.callRep }
  if s.callRep = none then flush s else s

/-- What happens.  A thread in the wait can wake up at any time. -/
inductive Event
  | queueFrag
  | queueDummyFrag
  | setStatus (st : Status)
  | pushCall (call : ℕ)
  | endCall (call : ℕ)
  | acbDealloc
  | receive (t : ℕ)
  | wake (t : ℕ) (cancelled : Option ℕ)

/-- A fragment is queued for the call on the association. -/
def Able (s : State) : Event → Prop
  | .queueFrag => ∃ c, s.callRep = some c
  | .receive t => s.waiting t = none
  | .wake t _ => ∃ c, s.waiting t = some c
  | _ => True

/-- An event that can happen gives `none` only where NULL is written through. -/
def step (s : State) : Event → Option State
  | .queueFrag => s.callRep.bind fun c =>
      (addTail s.links (.frag s.queued.length)).map fun links =>
        { s with links := links, queued := s.queued ++ [c] }
  | .queueDummyFrag => (addTail s.links .dummyFragbuf).map fun links => { s with links := links }
  | .setStatus st => some { s with assocStatus := st }
  | .pushCall call => some { s with callRep := some call }
  | .endCall call => some (endCall s call)
  | .acbDealloc => some { flush s with callRep := none, assocStatus := .ok }
  | .receive t => receiveFrag s t
  | .wake t cancelled => (s.waiting t).bind fun callRep => afterWait s t callRep cancelled

/-- The element without data is not queued while it is on the queue, and a call is not put on an
association that has another one. -/
def Proper (s : State) : Event → Prop
  | .queueDummyFrag => .dummyFragbuf ∉ s.msgList
  | .pushCall call => s.callRep = none ∨ s.callRep = some call
  | _ => True

/-! ### What is wanted -/

structure WellFormed (m : Links) (l : List Node) : Prop where
  next : m.next .msgList = l.head?
  last : m.last .msgList = l.getLast?
  linked : Linked m.next m.last (some .msgList) l none
  nodup : l.Nodup
  elements : .msgList ∉ l

/-- A fragment of the call. -/
def OfCall (queued : List ℕ) (fragbuf : Option Node) (call : Option ℕ) : Prop :=
  ∃ n c, fragbuf = some (.frag n) ∧ queued[n]? = some c ∧ call = some c

/-- A fragment of the call, or the element without data, which the callers skip. -/
def OfCallOrDummy (queued : List ℕ) (fragbuf : Option Node) (call : Option ℕ) : Prop :=
  fragbuf = some .dummyFragbuf ∨ OfCall queued fragbuf call

/-- The queue is in order; the fragments that came out of it and those in it are the ones that were
queued, in their order; and what is received with `rpc_s_ok` is wanted. -/
structure Sound (wanted : List ℕ → Option Node → Option ℕ → Prop) (s : State) : Prop where
  links : WellFormed s.links s.msgList
  once : s.history.filterMap Outcome.frag? ++ s.msgList.filterMap Node.frag? =
    List.range s.queued.length
  received : ∀ fragbuf call, .received fragbuf .ok call ∈ s.history → wanted s.queued fragbuf call

variable {m : Links} {l : List Node} {x : Node} {s s' : State}

/-! ### The list macros on a list that is in order -/

theorem wellFormed_init : WellFormed (listInit m) [] where
  next := show Function.update m.next .msgList none .msgList = none from Function.update_self ..
  last := show Function.update m.last .msgList none .msgList = none from Function.update_self ..
  linked := trivial
  nodup := List.nodup_nil
  elements := List.not_mem_nil

theorem addTail_spec (hm : WellFormed m l) (hx : x ∉ l) (hne : x ≠ .msgList) :
    ∃ m', addTail m x = some m' ∧ WellFormed m' (l ++ [x]) := by
  have hnodup : (l ++ [x]).Nodup := List.nodup_append.mpr
    ⟨hm.nodup, List.nodup_singleton x, fun y hy z hz => by
      obtain rfl := List.mem_singleton.mp hz
      rintro rfl
      exact hx hy⟩
  have helements : .msgList ∉ l ++ [x] := by
    rw [List.mem_append, List.mem_singleton]
    exact not_or.mpr ⟨hm.elements, hne.symm⟩
  rw [addTail]
  by_cases hempty : m.next .msgList = none
  · obtain rfl : l = [] := List.head?_eq_none_iff.mp (hm.next.symm.trans hempty)
    rw [if_pos hempty]
    refine ⟨_, rfl, ⟨?_, ?_, ⟨⟨?_, ?_⟩, trivial⟩, hnodup, helements⟩⟩
    · refine (Function.update_of_ne hne.symm _ _).trans ?_
      show Function.update m.next .msgList (some x) .msgList = some x
      exact Function.update_self ..
    · show Function.update (Function.update m.last x (some .msgList)) .msgList (some x) .msgList = some x
      exact Function.update_self ..
    · exact (Function.update_of_ne hne _ _).trans (Function.update_self ..)
    · exact Function.update_self ..
  · have hl : l ≠ [] := by
      rintro rfl
      exact hempty hm.next
    obtain ⟨y, hy⟩ : ∃ y, l.getLast? = some y := ⟨_, List.getLast?_eq_some_getLast hl⟩
    have hyl : y ∈ l := List.mem_of_getLast? hy
    have hyne : y ≠ .msgList := fun h => hm.elements (h ▸ hyl)
    have hyx : y ≠ x := fun h => hx (h ▸ hyl)
    have hlast : m.last .msgList = some y := hm.last.trans hy
    rw [if_neg hempty, hlast]
    refine ⟨_, rfl, ⟨?_, ?_, ?_, hnodup, helements⟩⟩
    · rw [List.head?_append_of_ne_nil _ hl, ← hm.next]
      exact (Function.update_of_ne hne.symm _ _).trans (Function.update_of_ne hyne.symm _ _)
    · rw [List.getLast?_concat]
      show Function.update (Function.update m.last x (some y)) .msgList (some x) .msgList = some x
      exact Function.update_self ..
    · -- the last element leads to the new one, the others are as they were
      refine linked_append.mpr ⟨?_, ⟨⟨?_, ?_⟩, trivial⟩⟩
      · refine hm.linked.setNext hm.nodup (fun z hz => ?_) (fun z hz hzlast => ?_) fun z hz => ?_
        · have hzx : z ≠ x := fun h => hx (h ▸ hz)
          have hzne : z ≠ .msgList := fun h => hm.elements (h ▸ hz)
          exact (Function.update_of_ne hzne _ _).trans (Function.update_of_ne hzx _ _)
        · have hzx : z ≠ x := fun h => hx (h ▸ hz)
          have hzy : z ≠ y := fun h => hzlast (h ▸ hy.symm)
          exact (Function.update_of_ne hzx _ _).trans (Function.update_of_ne hzy _ _)
        · obtain rfl : y = z := Option.some_inj.mp (hy.symm.trans hz)
          exact (Function.update_of_ne hyx _ _).trans (Function.update_self ..)
      · rw [hy]
        exact (Function.update_of_ne hne _ _).trans (Function.update_self ..)
      · exact Function.update_self ..

theorem removeHead_spec (hm : WellFormed m (x :: l)) :
    ∃ m', removeHead m = some (some x, m') ∧ WellFormed m' l := by
  obtain ⟨⟨hlastx, hnextx⟩, hlinked⟩ := hm.linked
  obtain ⟨hx, hnodup⟩ := List.nodup_cons.mp hm.nodup
  obtain ⟨hxne, helements⟩ : Node.msgList ≠ x ∧ .msgList ∉ l :=
    not_or.mp fun h => hm.elements (List.mem_cons.mpr h)
  have hnext : m.next .msgList = some x := hm.next
  rw [removeHead, hnext]
  dsimp only
  rw [listRemove]
  cases l with
  | nil =>
    have hone : m.last .msgList = m.next .msgList := hm.last.trans hnext.symm
    rw [if_pos hone]
    exact ⟨_, rfl, wellFormed_init⟩
  | cons z l =>
    have hmore : m.last .msgList ≠ m.next .msgList := by
      rw [hm.last, hnext, List.getLast?_cons_cons]
      intro h
      exact hx (List.mem_of_getLast? h)
    have hzx : x ≠ z := fun h => hx (h ▸ List.mem_cons_self)
    have hzne : Node.msgList ≠ z := fun h => helements (h ▸ List.mem_cons_self)
    have hnextz : m.next x = some z := hnextx
    have hlast : Function.update m.last z (m.last x) x = some .msgList :=
      (Function.update_of_ne hzx _ _).trans hlastx
    rw [if_neg hmore, hnextz]
    dsimp only
    rw [hlast]
    refine ⟨_, rfl, ⟨?_, ?_, ?_, hnodup, helements⟩⟩
    · show Function.update m.next .msgList (some z) .msgList = some z
      exact Function.update_self ..
    · refine (Function.update_of_ne hzne _ _).trans ?_
      rw [hm.last, List.getLast?_cons_cons]
    · refine hlinked.setPrev (fun y hy => ?_) (fun y hy => ?_) fun y hy => ?_
      · have hyne : y ≠ .msgList := fun h => helements (h ▸ hy)
        exact Function.update_of_ne hyne _ _
      · have hyz : y ≠ z := fun h => (List.nodup_cons.mp hnodup).1 (h ▸ hy)
        exact Function.update_of_ne hyz _ _
      · obtain rfl : z = y := Option.some_inj.mp hy
        exact (Function.update_self ..).trans hlastx

theorem walk_eq {next last : Node → Option Node} {before : Option Node} {fuel : ℕ}
    (hl : Linked next last before l none) (hfuel : l.length ≤ fuel) :
    walk next fuel l.head? = l := by
  induction l generalizing before fuel with
  | nil => cases fuel <;> rfl
  | cons x l ih =>
    obtain ⟨fuel, rfl⟩ : ∃ k, fuel = k + 1 := ⟨fuel - 1, by rw [List.length_cons] at hfuel; omega⟩
    obtain ⟨⟨-, hnext⟩, hl⟩ := hl
    rw [Option.or_none] at hnext
    rw [List.head?_cons, walk, hnext, ih hl (Nat.le_of_succ_le_succ hfuel)]

/-! ### Runs -/

/-- What holds in a state whose queue is `l`. -/
structure Inv (s : State) (l : List Node) : Prop where
  links : WellFormed s.links l
  once : s.history.filterMap Outcome.frag? ++ l.filterMap Node.frag? = List.range s.queued.length
  ofCall : ∀ n, .frag n ∈ l → ∃ c, s.queued[n]? = some c ∧ s.callRep = some c
  received : ∀ fragbuf call, .received fragbuf .ok call ∈ s.history →
    OfCallOrDummy s.queued fragbuf call

/-- The fragments of the queue were queued. -/
theorem Inv.lt (h : Inv s l) {n : ℕ} (hn : .frag n ∈ l) : n < s.queued.length := by
  have hmem : n ∈ l.filterMap Node.frag? := List.mem_filterMap.mpr ⟨_, hn, rfl⟩
  rw [← List.mem_range, ← h.once]
  exact List.mem_append_right _ hmem

theorem Inv.msgList (h : Inv s l) : s.msgList = l := by
  have hsub : l ⊆ .dummyFragbuf :: (List.range s.queued.length).map .frag := by
    intro x hx
    cases x with
    | msgList => exact absurd hx h.links.elements
    | dummyFragbuf => exact List.mem_cons_self
    | frag n =>
      exact List.mem_cons_of_mem _ (List.mem_map_of_mem (List.mem_range.mpr (h.lt hx)))
  have hlen := (List.subperm_of_subset h.links.nodup hsub).length_le
  rw [List.length_cons, List.length_map, List.length_range] at hlen
  rw [State.msgList, h.links.next]
  exact walk_eq h.links.linked hlen

/-- What is returned in a call joins the history. -/
theorem Inv.outcome (h : Inv s l) {links : Links} {l' : List Node} {o : Outcome}
    {waiting : ℕ → Option (Option ℕ)} (hlinks : WellFormed links l')
    (hfrag : o.frag?.toList ++ l'.filterMap Node.frag? = l.filterMap Node.frag?)
    (hsub : ∀ n, .frag n ∈ l' → .frag n ∈ l)
    (hok : ∀ fragbuf call, o = .received fragbuf .ok call → OfCallOrDummy s.queued fragbuf call) :
    Inv { s with links := links, waiting := waiting, history := s.history ++ [o] } l' := by
  refine ⟨hlinks, ?_, fun n hn => h.ofCall n (hsub n hn), fun fragbuf call ho => ?_⟩
  · have hone : [o].filterMap Outcome.frag? = o.frag?.toList := by
      cases ho : o.frag? with
      | none => rw [List.filterMap_cons_none ho]; rfl
      | some n => rw [List.filterMap_cons_some ho]; rfl
    show (s.history ++ [o]).filterMap Outcome.frag? ++ _ = _
    rw [List.filterMap_append, hone, List.append_assoc, hfrag]
    exact h.once
  · rcases List.mem_append.mp ho with ho | ho
    · exact h.received fragbuf call ho
    · exact hok fragbuf call (List.mem_singleton.mp ho).symm

theorem inv_receiveFrag (h : Inv s l) (t : ℕ) :
    ∃ s' l', receiveFrag s t = some s' ∧ Inv s' l' := by
  rw [receiveFrag]
  by_cases hwait : s.assocStatus = .ok ∧ s.links.next .msgList = none
  · rw [if_pos hwait]
    exact ⟨_, l, rfl, ⟨h.links, h.once, h.ofCall, h.received⟩⟩
  · rw [if_neg hwait]
    cases l with
    | nil =>
      -- the queue is empty: the status is not `rpc_s_ok`
      have hempty : s.links.next .msgList = none := h.links.next
      have hst : s.assocStatus ≠ .ok := fun hst => hwait ⟨hst, hempty⟩
      have hhead : removeHead s.links = some (none, s.links) := by
        rw [removeHead, hempty]
      rw [hhead]
      refine ⟨_, [], rfl, h.outcome h.links rfl (fun _ => id) ?_⟩
      intro fragbuf call ho
      obtain ⟨-, hok, -⟩ := Outcome.received.inj ho
      exact absurd hok hst
    | cons x l =>
      obtain ⟨links, hhead, hlinks⟩ := removeHead_spec h.links
      rw [hhead]
      refine ⟨_, l, rfl, h.outcome hlinks ?_ (fun n hn => List.mem_cons_of_mem _ hn) ?_⟩
      · cases hx : x.frag? with
        | none =>
          rw [List.filterMap_cons_none hx]
          show (x.frag?).toList ++ _ = _
          rw [hx]
          rfl
        | some n =>
          rw [List.filterMap_cons_some hx]
          show (x.frag?).toList ++ _ = _
          rw [hx]
          rfl
      · rintro fragbuf call ho
        obtain ⟨hfragbuf, -, hcall⟩ := Outcome.received.inj ho
        cases x with
        | msgList => exact absurd List.mem_cons_self h.links.elements
        | dummyFragbuf => exact .inl hfragbuf.symm
        | frag n =>
          obtain ⟨c, hc, hrep⟩ := h.ofCall n List.mem_cons_self
          exact .inr ⟨n, c, hfragbuf.symm, hc, hcall.symm.trans hrep⟩

theorem inv_giveUp (h : Inv s l) (t : ℕ) {st : Status} (hst : st ≠ .ok) :
    Inv (giveUp s t st) l := by
  refine h.outcome h.links rfl (fun _ => id) ?_
  rintro fragbuf call ho
  cases ho
  exact absurd rfl hst

theorem inv_afterWait (h : Inv s l) (t : ℕ) (callRep cancelled : Option ℕ) :
    ∃ s' l', afterWait s t callRep cancelled = some s' ∧ Inv s' l' := by
  unfold afterWait
  by_cases hrep : callRep ≠ s.callRep
  · rw [if_pos hrep]
    exact ⟨_, l, rfl, inv_giveUp h t nofun⟩
  · rw [if_neg hrep]
    cases cancelled with
    | none => exact inv_receiveFrag h t
    | some code => exact ⟨_, l, rfl, inv_giveUp h t nofun⟩

/-- The queue is empty, and all its fragments are freed. -/
theorem inv_flush (h : Inv s l) (callRep : Option ℕ) (st : Status) :
    Inv { flush s with callRep := callRep, assocStatus := st } [] := by
  have hfreed : ∀ ns : List ℕ, (ns.map Outcome.freed).filterMap Outcome.frag? = ns := by
    intro ns
    rw [List.filterMap_map]
    exact List.filterMap_some
  refine ⟨wellFormed_init, ?_, nofun, fun fragbuf call ho => ?_⟩
  · show (s.history ++ (s.msgList.filterMap Node.frag?).map Outcome.freed).filterMap Outcome.frag? ++
      _ = _
    rw [List.filterMap_append, hfreed, h.msgList, List.filterMap_nil, List.append_nil]
    exact h.once
  · rcases List.mem_append.mp ho with ho | ho
    · exact h.received fragbuf call ho
    · obtain ⟨n, -, hn⟩ := List.mem_map.mp ho
      cases hn

theorem inv_endCall (h : Inv s l) (call : ℕ) : ∃ l', Inv (endCall s call) l' := by
  rw [endCall]
  by_cases hnone : (if s.callRep = some call then none else s.callRep) = none
  · have hinv : Inv { s with callRep := s.callRep, assocStatus := .ok } l :=
      ⟨h.links, h.once, h.ofCall, h.received⟩
    refine ⟨[], ?_⟩
    rw [if_pos hnone]
    exact inv_flush hinv _ _
  · have hsame : (if s.callRep = some call then none else s.callRep) = s.callRep := by
      by_cases hcall : s.callRep = some call
      · exact absurd (if_pos hcall) hnone
      · exact if_neg hcall
    refine ⟨l, ?_⟩
    rw [if_neg hnone, hsame]
    exact ⟨h.links, h.once, h.ofCall, h.received⟩

/-- **One step.** -/
theorem inv_step (h : Inv s l) {e : Event} (hable : Able s e) (hproper : Proper s e) :
    ∃ s' l', step s e = some s' ∧ Inv s' l' := by
  cases e with
  | queueFrag =>
    obtain ⟨c, hc⟩ := hable
    have hnew : Node.frag s.queued.length ∉ l := fun hin => Nat.lt_irrefl _ (h.lt hin)
    obtain ⟨links, hadd, hlinks⟩ := addTail_spec h.links hnew nofun
    rw [step, hc, Option.bind_some, hadd, Option.map_some]
    refine ⟨_, l ++ [.frag s.queued.length], rfl, ⟨hlinks, ?_, fun n hn => ?_, ?_⟩⟩
    · show _ ++ (l ++ [_]).filterMap Node.frag? = List.range (s.queued ++ [c]).length
      rw [List.filterMap_append, ← List.append_assoc, h.once, List.length_append,
        List.length_singleton, List.range_succ]
      rfl
    · rcases List.mem_append.mp hn with hn | hn
      · obtain ⟨d, hd, hrep⟩ := h.ofCall n hn
        exact ⟨d, (List.getElem?_append_left (h.lt hn)).trans hd, hc.symm.trans hrep⟩
      · obtain rfl := Node.frag.inj (List.mem_singleton.mp hn)
        exact ⟨c, List.getElem?_concat_length, rfl⟩
    · intro fragbuf call ho
      refine (h.received fragbuf call ho).imp_right ?_
      rintro ⟨n, d, hfragbuf, hd, hcall⟩
      have hlt : n < s.queued.length := (List.getElem?_eq_some_iff.mp hd).1
      exact ⟨n, d, hfragbuf, (List.getElem?_append_left hlt).trans hd, hcall⟩
  | queueDummyFrag =>
    have hnew : Node.dummyFragbuf ∉ l := h.msgList ▸ hproper
    obtain ⟨links, hadd, hlinks⟩ := addTail_spec h.links hnew nofun
    rw [step, hadd, Option.map_some]
    refine ⟨_, l ++ [.dummyFragbuf], rfl, ⟨hlinks, ?_, fun n hn => ?_, h.received⟩⟩
    · rw [List.filterMap_append]
      exact (congrArg _ (List.append_nil _)).trans h.once
    · rcases List.mem_append.mp hn with hn | hn
      · exact h.ofCall n hn
      · cases List.mem_singleton.mp hn
  | setStatus st => exact ⟨_, l, rfl, ⟨h.links, h.once, h.ofCall, h.received⟩⟩
  | pushCall call =>
    refine ⟨_, l, rfl, ⟨h.links, h.once, fun n hn => ?_, h.received⟩⟩
    obtain ⟨c, hc, hrep⟩ := h.ofCall n hn
    rcases hproper with hnone | hsame
    · cases hnone.symm.trans hrep
    · exact ⟨c, hc, hsame.symm.trans hrep⟩
  | endCall call =>
    obtain ⟨l', hl'⟩ := inv_endCall h call
    exact ⟨_, l', rfl, hl'⟩
  | acbDealloc => exact ⟨_, [], rfl, inv_flush h none .ok⟩
  | receive t => exact inv_receiveFrag h t
  | wake t cancelled =>
    obtain ⟨callRep, hwaiting⟩ := hable
    rw [step, hwaiting, Option.bind_some]
    exact inv_afterWait h t callRep cancelled

/-- A fragment comes for a call, and is received. -/
def fragRun : List Event := [.pushCall 0, .queueFrag, .queueDummyFrag, .receive 0]

/-- A thread is woken up while the association has no call. -/
def wakeupRun : List Event := [.queueDummyFrag, .receive 0]

/-- Two wakeups, with a fragment between them: the list has lost the fragment. -/
def lostRun : List Event := [.pushCall 0, .queueDummyFrag, .queueFrag, .queueDummyFrag, .receive 0]

end MsgQueue

end Cn
