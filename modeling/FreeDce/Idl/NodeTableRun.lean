/-
Runs of the operations on a node table.

The events of a run are logged, and what has been registered, presented and unregistered is
read off the log.  `Inv` ties the table to the log.

* `tableSound_of_along` — in a run that presents no number of an unregistered node, and registers no
  node beyond the last 32-bit number, the table answers as the log says;
* `not_tableSound` — presenting such a number shows the mark of another node.
-/
import FreeDce.Idl.NodeTable
import FreeDce.Lib.Runs

namespace Idl

namespace Nodes

/-! ### The log -/

inductive Event
  /-- A node is registered. -/
  | registered (num ptr : ℕ)
  /-- `rpc_ss_register_node` answers; the flag is there if the node is to be marshalled. -/
  | numbered (num ptr : ℕ) (marshalled : Option Bool)
  /-- A number is presented, its node being marked as unmarshalled. -/
  | presented (num ptr : ℕ) (unmarshalled : Bool)
  /-- The same without the mark. -/
  | inquired (num ptr : ℕ) (unmarshalled : Bool)
  | unregistered (ptr : ℕ)
deriving DecidableEq

/-- The address last registered for a number. -/
def lastRegistered : List Event → ℕ → ℕ
  | [], _ => 0
  | .registered num' ptr :: log, num => if num = num' then ptr else lastRegistered log num
  | .numbered .. :: log, num => lastRegistered log num
  | .presented .. :: log, num => lastRegistered log num
  | .inquired .. :: log, num => lastRegistered log num
  | .unregistered _ :: log, num => lastRegistered log num

/-- The number of an address that is registered and not unregistered. -/
def liveNumber : List Event → ℕ → Option ℕ
  | [], _ => none
  | .registered num ptr' :: log, ptr => if ptr = ptr' then some num else liveNumber log ptr
  | .numbered .. :: log, ptr => liveNumber log ptr
  | .presented .. :: log, ptr => liveNumber log ptr
  | .inquired .. :: log, ptr => liveNumber log ptr
  | .unregistered ptr' :: log, ptr => if ptr = ptr' then none else liveNumber log ptr

/-- The numbers of the nodes that have been unregistered. -/
def unregisteredNumbers : List Event → List ℕ
  | [] => []
  | .registered .. :: log => unregisteredNumbers log
  | .numbered .. :: log => unregisteredNumbers log
  | .presented .. :: log => unregisteredNumbers log
  | .inquired .. :: log => unregisteredNumbers log
  | .unregistered ptr :: log => (liveNumber log ptr).toList ++ unregisteredNumbers log

/-- The node with a number has been presented for marshalling. -/
def wasMarshalled : List Event → ℕ → Bool
  | [], _ => false
  | .registered .. :: log, num => wasMarshalled log num
  | .numbered num' _ flag :: log, num => (num = num' && flag.isSome) || wasMarshalled log num
  | .presented .. :: log, num => wasMarshalled log num
  | .inquired .. :: log, num => wasMarshalled log num
  | .unregistered _ :: log, num => wasMarshalled log num

/-- The node with a number has been presented for unmarshalling. -/
def wasUnmarshalled : List Event → ℕ → Bool
  | [], _ => false
  | .registered .. :: log, num => wasUnmarshalled log num
  | .numbered .. :: log, num => wasUnmarshalled log num
  | .presented num' ptr _ :: log, num => (num = num' && ptr ≠ 0) || wasUnmarshalled log num
  | .inquired .. :: log, num => wasUnmarshalled log num
  | .unregistered _ :: log, num => wasUnmarshalled log num

/-- Every answer is the one that the log before it asks for. -/
def AnswersRight : List Event → Prop
  | [] => True
  | .registered .. :: log => AnswersRight log
  | .numbered num ptr flag :: log =>
    (liveNumber log ptr = some num ∧ ∀ m, flag = some m → m = wasMarshalled log num) ∧
      AnswersRight log
  | .presented num ptr flag :: log =>
    (lastRegistered log num = ptr ∧ flag = wasUnmarshalled log num) ∧ AnswersRight log
  | .inquired num ptr flag :: log =>
    (lastRegistered log num = ptr ∧ flag = wasUnmarshalled log num) ∧ AnswersRight log
  | .unregistered _ :: log => AnswersRight log

/-- The hash entry of a node as the log has it. -/
def nodeEntry (log : List Event) (ptr num : ℕ) : HashEntry where
  ptr := ptr
  node := num
  marshalled := wasMarshalled log num
  unmarshalled := wasUnmarshalled log num

/-! ### Steps -/

/-- `max_ptr`, a node table, and the log of the run. -/
structure Session where
  maxPtr : ℕ
  tab : NodeTable
  log : List Event

inductive Op
  | registerNode (ptr : ℕ) (marshalling : Bool)
  | returnPointerToNode (num alloc : ℕ)
  | lookupPointerToNode (num : ℕ)
  | inquirePointerToNode (num : ℕ)
  | unregisterNode (ptr : ℕ)
deriving DecidableEq

def Session.init (maxPtr : ℕ) (reflect : Bool) : Session where
  maxPtr := maxPtr
  tab := initNodeTable reflect
  log := []

/-- The events of a call of `rpc_ss_register_node`. -/
def numberedEvents (new : Bool) (num ptr : ℕ) (flag : Option Bool) (log : List Event) : List Event :=
  if ptr = 0 then log
  else .numbered num ptr flag :: if new then .registered num ptr :: log else log

def Session.returnPointerToNode (s : Session) (num alloc : ℕ) :
    Option (Session × NodeTable.Answer) := do
  let (maxPtr, tab, a) ← NodeTable.returnPointerToNode s.maxPtr s.tab num alloc
  let log := if a.newNode then .registered a.num a.ptr :: s.log else s.log
  some ({ maxPtr := maxPtr, tab := tab, log := .presented a.num a.ptr a.unmarshalled :: log }, a)

def Session.lookupPointerToNode (s : Session) (num : ℕ) : Option (Session × NodeTable.Answer) := do
  let (maxPtr, tab, a) ← NodeTable.lookupPointerToNode s.maxPtr s.tab num
  some ({ maxPtr := maxPtr, tab := tab, log := .presented a.num a.ptr a.unmarshalled :: s.log }, a)

def Session.inquirePointerToNode (s : Session) (num : ℕ) : Option (Session × NodeTable.Answer) := do
  let (maxPtr, tab, a) ← NodeTable.inquirePointerToNode s.maxPtr s.tab num
  some ({ maxPtr := maxPtr, tab := tab, log := .inquired a.num a.ptr a.unmarshalled :: s.log }, a)

/-- One call; `none` if it reads or writes outside of an array. -/
def step (s : Session) : Op → Option Session
  | .registerNode ptr marshalling => do
    let (tab, num, flag) ← s.tab.registerNode ptr marshalling
    let log := numberedEvents (s.tab.lookupNodeByPtr ptr = 0) num ptr flag s.log
    some { s with tab := tab, log := log }
  | .returnPointerToNode num alloc => (s.returnPointerToNode num alloc).map Prod.fst
  | .lookupPointerToNode num => (s.lookupPointerToNode num).map Prod.fst
  | .inquirePointerToNode num => (s.inquirePointerToNode num).map Prod.fst
  | .unregisterNode ptr =>
    some { s with tab := s.tab.unregisterNode ptr, log := .unregistered ptr :: s.log }

/-! ### The invariant -/

/-- The table holds what the log says. -/
structure Inv (tab : NodeTable) (log : List Event) : Prop where
  ok : tab.Ok
  addr : ∀ num, tab.root.addr num = lastRegistered log num
  live : ∀ ptr ≠ 0, tab.live ptr = (liveNumber log ptr).map (nodeEntry log ptr)
  high_lt : tab.highNum < 2 ^ 32
  le_high : ∀ num, lastRegistered log num ≠ 0 → num ≤ tab.highNum
  high : tab.highNum = 0 ∨ lastRegistered log tab.highNum ≠ 0
  back : ∀ ptr num, liveNumber log ptr = some num → ptr ≠ 0 ∧ lastRegistered log num = ptr
  known : ∀ num, lastRegistered log num ≠ 0 → num ∉ unregisteredNumbers log →
    liveNumber log (lastRegistered log num) = some num
  dead : ∀ num ∈ unregisteredNumbers log,
    lastRegistered log num ≠ 0 ∧ ∀ ptr, liveNumber log ptr ≠ some num
  nodup : (unregisteredNumbers log).Nodup
  marked : ∀ num, wasMarshalled log num = true ∨ wasUnmarshalled log num = true →
    lastRegistered log num ≠ 0
  answers : AnswersRight log
  deletes : tab.deletesReflected = true → tab.deletedNodes.Perm (unregisteredNumbers log)

variable {tab tab' : NodeTable} {log : List Event} {num ptr : ℕ}

theorem Inv.init (reflect : Bool) : Inv (initNodeTable reflect) [] where
  ok _ := ⟨by simp [initNodeTable, HashChain.entries], by simp [initNodeTable, HashChain.entries]⟩
  addr num := by
    rw [RootArray.addr]
    split
    · rfl
    · exact Radix.get_empty 0 0 (num - 1)
  live ptr hptr := by
    show HashChain.find {} ptr = none
    rw [HashChain.find, List.find?_eq_none]
    intro e he
    rw [List.mem_singleton.mp he]
    simpa using hptr.symm
  high_lt := Nat.pow_pos (by decide)
  le_high _ h := absurd rfl h
  high := Or.inl rfl
  back _ _ h := nomatch h
  known _ h := absurd rfl h
  dead _ h := absurd h List.not_mem_nil
  nodup := List.nodup_nil
  marked _ h := by simp [wasMarshalled, wasUnmarshalled] at h
  answers := trivial
  deletes _ := List.Perm.refl _

/-- A live number is one of the 32-bit numbers but zero. -/
theorem Inv.live_pos (h : Inv tab log) (hl : liveNumber log ptr = some num) : 0 < num := by
  obtain ⟨hptr, hlast⟩ := h.back ptr num hl
  refine Nat.pos_of_ne_zero ?_
  rintro rfl
  rw [← h.addr, RootArray.addr_zero] at hlast
  exact hptr hlast.symm

theorem Inv.live_eq (h : Inv tab log) (hl : liveNumber log ptr = some num) :
    tab.live ptr = some (nodeEntry log ptr num) := by
  rw [h.live ptr (h.back ptr num hl).1, hl]
  rfl

theorem Inv.live_none (h : Inv tab log) (hptr : ptr ≠ 0) (hl : liveNumber log ptr = none) :
    tab.live ptr = none := by
  rw [h.live ptr hptr, hl]
  rfl

/-- A new node is registered under a new number. -/
theorem Inv.registers (h : Inv tab log) (hreg : tab.Registers tab' num ptr) (hlt : num < 2 ^ 32)
    (hptr : ptr ≠ 0) (hnew : liveNumber log ptr = none) (hnum : lastRegistered log num = 0) :
    Inv tab' (.registered num ptr :: log) := by
  have hlive : ∀ ptr', liveNumber log ptr' ≠ some num := by
    intro ptr' hl
    obtain ⟨hptr', hlast⟩ := h.back ptr' num hl
    exact hptr' (hlast.symm.trans hnum)
  have hlast : ∀ num', num' ≠ num →
      lastRegistered (.registered num ptr :: log) num' = lastRegistered log num' :=
    fun num' hne => if_neg hne
  have hself : lastRegistered (.registered num ptr :: log) num = ptr := if_pos rfl
  have hdead : num ∉ unregisteredNumbers log := fun hmem => (h.dead num hmem).1 hnum
  refine { ok := hreg.ok, addr := ?_, live := ?_, high_lt := ?_, le_high := ?_, high := ?_,
           back := ?_, known := ?_, dead := ?_, nodup := h.nodup, marked := ?_,
           answers := h.answers, deletes := ?_ }
  · intro num'
    rw [hreg.addr, h.addr]
    rfl
  · intro ptr' hptr'
    rw [hreg.live ptr' hptr', h.live ptr' hptr']
    show _ = (if ptr' = ptr then some num else liveNumber log ptr').map _
    by_cases heq : ptr' = ptr
    · -- a number that is new has not been presented
      have hm : wasMarshalled log num = false := by
        by_contra hm
        exact h.marked num (Or.inl (Bool.not_eq_false _ ▸ hm)) hnum
      have hu : wasUnmarshalled log num = false := by
        by_contra hu
        exact h.marked num (Or.inr (Bool.not_eq_false _ ▸ hu)) hnum
      rw [if_pos heq, if_pos heq, Option.map_some]
      show some (HashEntry.mk ptr num false false)
        = some ⟨ptr', num, wasMarshalled log num, wasUnmarshalled log num⟩
      rw [hm, hu, heq]
    · rw [if_neg heq, if_neg heq]
      rfl
  · rw [hreg.highNum]
    exact max_lt hlt h.high_lt
  · intro num' hnum'
    rw [hreg.highNum]
    by_cases heq : num' = num
    · exact heq ▸ le_max_left _ _
    · rw [hlast num' heq] at hnum'
      exact (h.le_high num' hnum').trans (le_max_right _ _)
  · right
    rw [hreg.highNum]
    rcases le_total num tab.highNum with hle | hle
    · rw [max_eq_right hle]
      by_cases heq : tab.highNum = num
      · rw [heq, hself]
        exact hptr
      · rw [hlast _ heq]
        refine h.high.resolve_left fun h0 => ?_
        exact heq (by omega)
    · rw [max_eq_left hle, hself]
      exact hptr
  · intro ptr' num' hl
    have hl' : (if ptr' = ptr then some num else liveNumber log ptr') = some num' := hl
    by_cases heq : ptr' = ptr
    · rw [if_pos heq] at hl'
      cases hl'
      exact ⟨heq ▸ hptr, hself.trans heq.symm⟩
    · rw [if_neg heq] at hl'
      have hne : num' ≠ num := by
        rintro rfl
        exact hlive ptr' hl'
      rw [hlast num' hne]
      exact h.back ptr' num' hl'
  · intro num' hnum' hmem
    show (if _ = ptr then some num else liveNumber log _) = some num'
    by_cases heq : num' = num
    · rw [heq, hself, if_pos rfl]
    · rw [hlast num' heq] at hnum' ⊢
      have hl := h.known num' hnum' hmem
      rw [if_neg, hl]
      intro hp
      rw [hp, hnew] at hl
      cases hl
  · intro num' hmem
    have hne : num' ≠ num := by
      rintro rfl
      exact hdead hmem
    rw [hlast num' hne]
    refine ⟨(h.dead num' hmem).1, fun ptr' hl => ?_⟩
    have hl' : (if ptr' = ptr then some num else liveNumber log ptr') = some num' := hl
    by_cases heq : ptr' = ptr
    · rw [if_pos heq] at hl'
      cases hl'
      exact hne rfl
    · rw [if_neg heq] at hl'
      exact (h.dead num' hmem).2 ptr' hl'
  · intro num' hm
    by_cases heq : num' = num
    · rw [heq, hself]
      exact hptr
    · rw [hlast num' heq]
      exact h.marked num' hm
  · intro hr
    rw [hreg.deletesReflected] at hr
    rw [NodeTable.deletedNodes, hreg.deletesList]
    exact h.deletes hr

/-- An event that registers nothing: only marks and answers change. -/
theorem Inv.quiet {ev : Event} (h : Inv tab log) (hlast : lastRegistered (ev :: log) = lastRegistered log)
    (hlive : liveNumber (ev :: log) = liveNumber log)
    (hun : unregisteredNumbers (ev :: log) = unregisteredNumbers log)
    (hok : tab'.Ok) (hroot : tab'.root = tab.root) (hhigh : tab'.highNum = tab.highNum)
    (hlist : tab'.deletesList = tab.deletesList)
    (hreflect : tab'.deletesReflected = tab.deletesReflected)
    (hnodes : ∀ ptr ≠ 0, tab'.live ptr = (liveNumber log ptr).map (nodeEntry (ev :: log) ptr))
    (hmarked : ∀ num, wasMarshalled (ev :: log) num = true ∨ wasUnmarshalled (ev :: log) num = true →
      lastRegistered log num ≠ 0)
    (hanswers : AnswersRight (ev :: log)) : Inv tab' (ev :: log) where
  ok := hok
  addr num := by rw [hroot, h.addr, hlast]
  live ptr hptr := by rw [hnodes ptr hptr, hlive]
  high_lt := hhigh ▸ h.high_lt
  le_high num hnum := by
    rw [hlast] at hnum
    exact hhigh ▸ h.le_high num hnum
  high := by
    rw [hhigh, hlast]
    exact h.high
  back ptr num hl := by
    rw [hlive] at hl
    rw [hlast]
    exact h.back ptr num hl
  known num hnum hmem := by
    rw [hlast] at hnum ⊢
    rw [hun] at hmem
    rw [hlive]
    exact h.known num hnum hmem
  dead num hmem := by
    rw [hun] at hmem
    rw [hlast, hlive]
    exact h.dead num hmem
  nodup := hun ▸ h.nodup
  marked num hm := by
    rw [hlast]
    exact hmarked num hm
  answers := hanswers
  deletes hr := by
    rw [NodeTable.deletedNodes, hlist, hun]
    exact h.deletes (hreflect ▸ hr)

/-- Two live addresses have different numbers. -/
theorem Inv.live_ne (h : Inv tab log) (hl : liveNumber log ptr = some num) {ptr' num' : ℕ}
    (hl' : liveNumber log ptr' = some num') (hne : ptr' ≠ ptr) : num' ≠ num := by
  rintro rfl
  exact hne ((h.back ptr' _ hl').2.symm.trans (h.back ptr _ hl).2)

/-- The node of a live address is marked. -/
theorem Inv.mark {ev : Event} {f : HashEntry → HashEntry} (h : Inv tab log)
    (hl : liveNumber log ptr = some num)
    (hlast : lastRegistered (ev :: log) = lastRegistered log)
    (hlive : liveNumber (ev :: log) = liveNumber log)
    (hun : unregisteredNumbers (ev :: log) = unregisteredNumbers log)
    (hf : ∀ e, (f e).ptr = e.ptr ∧ (f e).node = e.node)
    (hself : f (nodeEntry log ptr num) = nodeEntry (ev :: log) ptr num)
    (hother : ∀ num' ≠ num, wasMarshalled (ev :: log) num' = wasMarshalled log num' ∧
      wasUnmarshalled (ev :: log) num' = wasUnmarshalled log num')
    (hanswers : AnswersRight (ev :: log)) : Inv (tab.setHashEntry ptr f) (ev :: log) := by
  have hentry := h.live_eq hl
  refine h.quiet hlast hlive hun (h.ok.setHashEntry (fun e => Or.inl (hf e).1) fun e => (hf e).2)
    rfl rfl rfl rfl ?_ ?_ hanswers
  · intro ptr' hptr'
    rw [NodeTable.live_setHashEntry hentry (hf _).1]
    by_cases heq : ptr' = ptr
    · rw [if_pos heq, heq, hl, hself]
      rfl
    · rw [if_neg heq, h.live ptr' hptr']
      cases hl' : liveNumber log ptr' with
      | none => rfl
      | some num' =>
        obtain ⟨hm, hu⟩ := hother num' (h.live_ne hl hl' heq)
        show some (nodeEntry log ptr' num') = some (nodeEntry (ev :: log) ptr' num')
        rw [nodeEntry, nodeEntry, hm, hu]
  · intro num' hm
    by_cases heq : num' = num
    · rw [heq, (h.back ptr num hl).2]
      exact (h.back ptr num hl).1
    · obtain ⟨hm', hu'⟩ := hother num' heq
      rw [hm', hu'] at hm
      exact h.marked num' hm

theorem Inv.markMarshalled (h : Inv tab log) (hl : liveNumber log ptr = some num) :
    Inv (tab.setHashEntry ptr fun e => { e with marshalled := true })
      (.numbered num ptr (some (wasMarshalled log num)) :: log) := by
  refine h.mark hl rfl rfl rfl (fun _ => ⟨rfl, rfl⟩) ?_ ?_ ⟨⟨hl, ?_⟩, h.answers⟩
  · show HashEntry.mk ptr num true _ = ⟨ptr, num, (num = num && true) || _, _⟩
    rw [decide_eq_true rfl]
    rfl
  · intro num' hne
    refine ⟨?_, rfl⟩
    show (num' = num && true || wasMarshalled log num') = _
    rw [decide_eq_false hne]
    rfl
  · rintro m ⟨⟩
    rfl

theorem Inv.markUnmarshalled (h : Inv tab log) (hl : liveNumber log ptr = some num) :
    Inv (tab.setHashEntry ptr fun e => { e with unmarshalled := true })
      (.presented num ptr (wasUnmarshalled log num) :: log) := by
  obtain ⟨hptr, hlast⟩ := h.back ptr num hl
  refine h.mark hl rfl rfl rfl (fun _ => ⟨rfl, rfl⟩) ?_ ?_ ⟨⟨hlast, rfl⟩, h.answers⟩
  · show HashEntry.mk ptr num _ true = ⟨ptr, num, _, (num = num && ptr ≠ 0) || _⟩
    rw [decide_eq_true rfl, decide_eq_true hptr]
    rfl
  · intro num' hne
    refine ⟨rfl, ?_⟩
    show (num' = num && ptr ≠ 0 || wasUnmarshalled log num') = _
    rw [decide_eq_false hne]
    rfl

/-- An event that marks nothing. -/
theorem Inv.note {ev : Event} (h : Inv tab log)
    (hlast : lastRegistered (ev :: log) = lastRegistered log)
    (hlive : liveNumber (ev :: log) = liveNumber log)
    (hun : unregisteredNumbers (ev :: log) = unregisteredNumbers log)
    (hm : wasMarshalled (ev :: log) = wasMarshalled log)
    (hu : wasUnmarshalled (ev :: log) = wasUnmarshalled log)
    (hanswers : AnswersRight (ev :: log)) : Inv tab (ev :: log) := by
  have hnodes : ∀ ptr num, nodeEntry (ev :: log) ptr num = nodeEntry log ptr num := by
    intro ptr num
    rw [nodeEntry, nodeEntry, hm, hu]
  refine h.quiet hlast hlive hun h.ok rfl rfl rfl rfl ?_ ?_ hanswers
  · intro ptr hptr
    rw [h.live ptr hptr]
    exact congrArg (Option.map · (liveNumber log ptr)) (funext fun num => (hnodes ptr num).symm)
  · rw [hm, hu]
    exact h.marked

theorem deletedNodes_add (num : ℕ) (blocks : List DeletedNodes) :
    ((addDeleteToList num blocks).flatMap DeletedNodes.nodeNumbers).Perm
      (num :: blocks.flatMap DeletedNodes.nodeNumbers) := by
  cases blocks with
  | nil => exact List.Perm.refl _
  | cons block blocks =>
    rw [addDeleteToList]
    split
    · exact List.Perm.refl _
    · show (block.nodeNumbers ++ [num] ++ blocks.flatMap _).Perm
        (num :: (block.nodeNumbers ++ blocks.flatMap _))
      rw [List.append_assoc]
      exact List.perm_middle

/-- A node is unregistered. -/
theorem Inv.unregister (h : Inv tab log) (ptr : ℕ) :
    Inv (tab.unregisterNode ptr) (.unregistered ptr :: log) := by
  cases hl : liveNumber log ptr with
  | none =>
    -- nothing is registered under the address
    have htab : tab.unregisterNode ptr = tab := by
      by_cases hptr : ptr = 0
      · exact if_pos hptr
      · exact NodeTable.unregisterNode_of_not_live (h.live_none hptr hl)
    rw [htab]
    refine h.note rfl ?_ ?_ rfl rfl h.answers
    · funext ptr'
      show (if ptr' = ptr then none else liveNumber log ptr') = _
      split
      · rename_i heq
        rw [heq, hl]
      · rfl
    · show (liveNumber log ptr).toList ++ _ = _
      rw [hl]
      rfl
  | some num =>
    obtain ⟨hptr, hlast⟩ := h.back ptr num hl
    obtain ⟨hok, hroot, hlive, hhigh, hreflect, hlist⟩ :=
      NodeTable.unregisterNode_eq h.ok hptr (h.live_eq hl)
    have hun : unregisteredNumbers (.unregistered ptr :: log) = num :: unregisteredNumbers log := by
      show (liveNumber log ptr).toList ++ _ = _
      rw [hl]
      rfl
    have hlive' : ∀ ptr' num', liveNumber (.unregistered ptr :: log) ptr' = some num' →
        ptr' ≠ ptr ∧ liveNumber log ptr' = some num' := by
      intro ptr' num' hl'
      have hif : (if ptr' = ptr then none else liveNumber log ptr') = some num' := hl'
      by_cases heq : ptr' = ptr
      · rw [if_pos heq] at hif
        cases hif
      · rw [if_neg heq] at hif
        exact ⟨heq, hif⟩
    refine { ok := hok, addr := ?_, live := ?_, high_lt := hhigh ▸ h.high_lt,
             le_high := fun num' hnum' => hhigh ▸ h.le_high num' hnum', high := ?_, back := ?_,
             known := ?_, dead := ?_, nodup := ?_, marked := h.marked, answers := h.answers,
             deletes := ?_ }
    · intro num'
      rw [hroot]
      exact h.addr num'
    · intro ptr' hptr'
      rw [hlive ptr' hptr']
      show _ = (if ptr' = ptr then none else liveNumber log ptr').map _
      split
      · rfl
      · exact h.live ptr' hptr'
    · rw [hhigh]
      exact h.high
    · intro ptr' num' hl'
      exact h.back ptr' num' (hlive' ptr' num' hl').2
    · intro num' hnum' hmem
      rw [hun, List.mem_cons, not_or] at hmem
      have hl' := h.known num' hnum' hmem.2
      show (if lastRegistered log num' = ptr then none
        else liveNumber log (lastRegistered log num')) = _
      rw [if_neg]
      · exact hl'
      · intro heq
        rw [heq, hl] at hl'
        exact hmem.1 (Option.some_inj.mp hl').symm
    · intro num' hmem
      rw [hun, List.mem_cons] at hmem
      rcases hmem with rfl | hmem
      · refine ⟨hlast.trans_ne hptr, fun ptr' hl' => ?_⟩
        obtain ⟨hne, hl'⟩ := hlive' ptr' _ hl'
        exact h.live_ne hl hl' hne rfl
      · obtain ⟨hlast', hdead⟩ := h.dead num' hmem
        exact ⟨hlast', fun ptr' hl' => hdead ptr' (hlive' ptr' num' hl').2⟩
    · rw [hun]
      exact List.nodup_cons.mpr ⟨fun hmem => (h.dead num hmem).2 ptr hl, h.nodup⟩
    · intro hr
      rw [hreflect] at hr
      rw [hun, NodeTable.deletedNodes, hlist, if_pos hr]
      exact (deletedNodes_add num _).trans ((h.deletes hr).cons num)

/-! ### What a step does to it -/

/-- The condition on a step: the numbers of nodes have 32 bits, and a number that is presented
is not that of an unregistered node. -/
def InOrder (log : List Event) : Op → Prop
  | .registerNode ptr _ => ptr = 0 ∨ liveNumber log ptr ≠ none ∨ lastRegistered log (2 ^ 32 - 1) = 0
  | .returnPointerToNode num _ => num ∉ unregisteredNumbers log
  | .lookupPointerToNode num => num ∉ unregisteredNumbers log
  | .inquirePointerToNode num => num ∉ unregisteredNumbers log
  | .unregisterNode _ => True

theorem Inv.not_marshalled (h : Inv tab log) (hnum : lastRegistered log num = 0) :
    wasMarshalled log num = false := by
  by_contra hm
  exact h.marked num (Or.inl (Bool.not_eq_false _ ▸ hm)) hnum

theorem Inv.not_unmarshalled (h : Inv tab log) (hnum : lastRegistered log num = 0) :
    wasUnmarshalled log num = false := by
  by_contra hm
  exact h.marked num (Or.inr (Bool.not_eq_false _ ▸ hm)) hnum

/-- `rpc_ss_register_node` on an address that has a number. -/
theorem Inv.registerNode_live (h : Inv tab log) (hl : liveNumber log ptr = some num)
    (marshalling : Bool) :
    ∃ tab' flag, tab.registerNode ptr marshalling = some (tab', num, flag) ∧
      Inv tab' (.numbered num ptr flag :: log) := by
  have hptr := (h.back ptr num hl).1
  have hlookup : tab.lookupNodeByPtr ptr = num := NodeTable.lookupNodeByPtr_of_live (h.live_eq hl)
  have hentry := NodeTable.hashEntry_of_live (h.live_eq hl)
  rw [NodeTable.registerNode, if_neg hptr, hlookup, if_pos (h.live_pos hl).ne', hentry]
  cases marshalling with
  | true => exact ⟨_, _, rfl, h.markMarshalled hl⟩
  | false =>
    refine ⟨_, _, rfl, h.note rfl rfl rfl ?_ rfl ⟨⟨hl, nofun⟩, h.answers⟩⟩
    funext num'
    show (num' = num && false || wasMarshalled log num') = _
    rw [Bool.and_false, Bool.false_or]

/-- `rpc_ss_register_node` on a new address. -/
theorem Inv.registerNode_new (h : Inv tab log) (hptr : ptr ≠ 0) (hl : liveNumber log ptr = none)
    (hlast : lastRegistered log (2 ^ 32 - 1) = 0) (marshalling : Bool) :
    ∃ tab' num flag, tab.registerNode ptr marshalling = some (tab', num, flag) ∧
      lastRegistered log num = 0 ∧
      Inv tab' (.numbered num ptr flag :: .registered num ptr :: log) := by
  have hnone := h.live_none hptr hl
  have hlookup : tab.lookupNodeByPtr ptr = 0 := NodeTable.lookupNodeByPtr_of_not_live hnone
  -- the number after the highest one still fits
  have hlt : tab.highNum + 1 < 2 ^ 32 := by
    have hlt := h.high_lt
    have hne : tab.highNum ≠ 2 ^ 32 - 1 := by
      intro heq
      rcases h.high with h0 | h0
      · omega
      · rw [heq] at h0
        exact h0 hlast
    omega
  have hnum : lastRegistered log (tab.highNum + 1) = 0 := by
    by_contra hne
    exact absurd (h.le_high _ hne) (Nat.not_succ_le_self _)
  have hok : NodeTable.Ok { tab with highNum := tab.highNum + 1 } := h.ok
  obtain ⟨tab', hrun, hreg⟩ := NodeTable.registerNodeByNum_eq hok (Nat.succ_pos _) hlt hptr hnone
  have hreg' : tab.Registers tab' (tab.highNum + 1) ptr := by
    refine { hreg with highNum := ?_ }
    rw [hreg.highNum, max_self]
    exact (max_eq_left (Nat.le_succ _)).symm
  have h' := h.registers hreg' hlt hptr hl hnum
  have hl' : liveNumber (.registered (tab.highNum + 1) ptr :: log) ptr = some (tab.highNum + 1) :=
    if_pos rfl
  rw [NodeTable.registerNode, if_neg hptr, hlookup, if_neg (not_not.mpr rfl)]
  show ∃ _ _ _, (NodeTable.registerNodeByNum _ _ _).bind _ = _ ∧ _
  rw [hrun]
  cases marshalling with
  | true =>
    have hmark := h'.markMarshalled hl'
    rw [show wasMarshalled (.registered (tab.highNum + 1) ptr :: log) (tab.highNum + 1) = false from
      h.not_marshalled hnum] at hmark
    exact ⟨_, _, _, rfl, hnum, hmark⟩
  | false =>
    refine ⟨_, _, _, rfl, hnum, h'.note rfl rfl rfl ?_ rfl ⟨⟨hl', nofun⟩, h'.answers⟩⟩
    funext num'
    show (num' = tab.highNum + 1 && false || wasMarshalled log num') = _
    rw [Bool.and_false, Bool.false_or]
    rfl

theorem Inv.lookupNodeByNum (h : Inv tab log) (num : ℕ) :
    tab.lookupNodeByNum num = some (lastRegistered log num) := by
  rw [NodeTable.lookupNodeByNum, RootArray.lookup_eq, h.addr]

section Unmarshalling

variable {maxPtr maxPtr' received : ℕ}

/-- `rpc_ss_lookup_pointer_to_node`, for a number that is not of an unregistered node. -/
theorem Inv.lookupPointerToNode (h : Inv tab log)
    (hrework : reworkPointer maxPtr received = some (maxPtr', num))
    (hnum : num ∉ unregisteredNumbers log) :
    ∃ tab', NodeTable.lookupPointerToNode maxPtr tab received = some (maxPtr', tab',
        ⟨num, lastRegistered log num, wasUnmarshalled log num, false⟩) ∧
      Inv tab' (.presented num (lastRegistered log num) (wasUnmarshalled log num) :: log) := by
  rw [NodeTable.lookupPointerToNode, NodeTable.pointerToNode, hrework]
  show ∃ _, (tab.lookupNodeByNum num).bind _ = _ ∧ _
  rw [h.lookupNodeByNum, Option.bind_some]
  by_cases h0 : lastRegistered log num = 0
  · rw [if_pos h0, h0, h.not_unmarshalled h0]
    refine ⟨tab, rfl, h.note rfl rfl rfl rfl ?_ ⟨⟨h0, (h.not_unmarshalled h0).symm⟩, h.answers⟩⟩
    funext num'
    show (num' = num && (0 : ℕ) ≠ 0 || wasUnmarshalled log num') = _
    rw [decide_eq_false (not_not.mpr rfl), Bool.and_false, Bool.false_or]
  · have hl := h.known num h0 hnum
    have hentry := NodeTable.hashEntry_of_live (h.live_eq hl)
    rw [if_neg h0, hentry]
    exact ⟨_, rfl, h.markUnmarshalled hl⟩

/-- `rpc_ss_inquire_pointer_to_node`. -/
theorem Inv.inquirePointerToNode (h : Inv tab log)
    (hrework : reworkPointer maxPtr received = some (maxPtr', num))
    (hnum : num ∉ unregisteredNumbers log) :
    NodeTable.inquirePointerToNode maxPtr tab received = some (maxPtr', tab,
        ⟨num, lastRegistered log num, wasUnmarshalled log num, false⟩) ∧
      Inv tab (.inquired num (lastRegistered log num) (wasUnmarshalled log num) :: log) := by
  refine ⟨?_, h.note rfl rfl rfl rfl rfl ⟨⟨rfl, rfl⟩, h.answers⟩⟩
  rw [NodeTable.inquirePointerToNode, NodeTable.pointerToNode, hrework]
  show (tab.lookupNodeByNum num).bind _ = _
  rw [h.lookupNodeByNum, Option.bind_some]
  by_cases h0 : lastRegistered log num = 0
  · rw [if_pos h0, h0, h.not_unmarshalled h0]
  · have hl := h.known num h0 hnum
    rw [if_neg h0, NodeTable.hashEntry_of_live (h.live_eq hl)]
    rfl

/-- `rpc_ss_return_pointer_to_node` on a number that is registered. -/
theorem Inv.returnPointerToNode_old (h : Inv tab log) (alloc : ℕ)
    (hrework : reworkPointer maxPtr received = some (maxPtr', num))
    (hnum : num ∉ unregisteredNumbers log) (h0 : lastRegistered log num ≠ 0) :
    ∃ tab', NodeTable.returnPointerToNode maxPtr tab received alloc = some (maxPtr', tab',
        ⟨num, lastRegistered log num, wasUnmarshalled log num, false⟩) ∧
      Inv tab' (.presented num (lastRegistered log num) (wasUnmarshalled log num) :: log) := by
  have hl := h.known num h0 hnum
  have hentry := NodeTable.hashEntry_of_live (h.live_eq hl)
  rw [NodeTable.returnPointerToNode, hrework]
  show ∃ _, (tab.lookupNodeByNum num).bind _ = _ ∧ _
  rw [h.lookupNodeByNum, Option.bind_some]
  simp only [if_neg h0, decide_eq_false h0, Option.bind_eq_bind, Option.bind_some, hentry]
  exact ⟨_, rfl, h.markUnmarshalled hl⟩

/-- `rpc_ss_return_pointer_to_node` on a new number: the node is allocated and registered. -/
theorem Inv.returnPointerToNode_new {alloc : ℕ} (h : Inv tab log)
    (hrework : reworkPointer maxPtr received = some (maxPtr', num)) (hpos : 0 < num)
    (hlt : num < 2 ^ 32) (h0 : lastRegistered log num = 0) (halloc : alloc ≠ 0)
    (hfresh : liveNumber log alloc = none) :
    ∃ tab', NodeTable.returnPointerToNode maxPtr tab received alloc
        = some (maxPtr', tab', ⟨num, alloc, false, true⟩) ∧
      Inv tab' (.presented num alloc false :: .registered num alloc :: log) := by
  obtain ⟨tab₁, hrun, hreg⟩ := NodeTable.registerNodeByNum_eq h.ok hpos hlt halloc
    (h.live_none halloc hfresh)
  have h₁ := h.registers hreg hlt halloc hfresh h0
  have hl : liveNumber (.registered num alloc :: log) alloc = some num := if_pos rfl
  have hentry := NodeTable.hashEntry_of_live (h₁.live_eq hl)
  have hmark := h₁.markUnmarshalled hl
  have hu : wasUnmarshalled (.registered num alloc :: log) num = false := h.not_unmarshalled h0
  rw [NodeTable.returnPointerToNode, hrework]
  show ∃ _, (tab.lookupNodeByNum num).bind _ = _ ∧ _
  rw [h.lookupNodeByNum, Option.bind_some]
  simp only [if_pos h0, decide_eq_true h0, Option.bind_eq_bind, hrun, Option.bind_some, hentry]
  rw [nodeEntry, hu]
  rw [hu] at hmark
  exact ⟨_, rfl, hmark⟩

end Unmarshalling

/-! ### Runs -/

/-- Node numbers that `rework_pointer` leaves alone. -/
def InRange (num : ℕ) : Prop := 0 < num ∧ num < 2 ^ 32 ∧ (num < 2 ^ 16 ∨ 0xffff0000 < num)

instance (num : ℕ) : Decidable (InRange num) := inferInstanceAs (Decidable (_ ∧ _ ∧ _))

/-- What the callers promise: numbers in range, and an allocator that returns memory which is
not that of a registered node. -/
def Allowed (log : List Event) : Op → Prop
  | .returnPointerToNode num alloc => InRange num ∧ alloc ≠ 0 ∧ liveNumber log alloc = none
  | .lookupPointerToNode num => InRange num
  | .inquirePointerToNode num => InRange num
  | .registerNode .. => True
  | .unregisterNode _ => True

instance (log : List Event) : (op : Op) → Decidable (Allowed log op)
  | .returnPointerToNode .. => inferInstanceAs (Decidable (_ ∧ _ ∧ _))
  | .lookupPointerToNode _ => inferInstanceAs (Decidable (InRange _))
  | .inquirePointerToNode _ => inferInstanceAs (Decidable (InRange _))
  | .registerNode .. => .isTrue trivial
  | .unregisterNode _ => .isTrue trivial

instance (log : List Event) : (op : Op) → Decidable (InOrder log op)
  | .registerNode .. => inferInstanceAs (Decidable (_ ∨ _ ∨ _))
  | .returnPointerToNode .. => inferInstanceAs (Decidable (¬ _))
  | .lookupPointerToNode _ => inferInstanceAs (Decidable (¬ _))
  | .inquirePointerToNode _ => inferInstanceAs (Decidable (¬ _))
  | .unregisterNode _ => .isTrue trivial

theorem reworkPointer_inRange (maxPtr : ℕ) (h : InRange num) :
    reworkPointer maxPtr num = some (maxPtr, num) := by
  rw [reworkPointer, if_neg h.1.ne']
  rcases h.2.2 with hlow | hhigh
  · rw [if_neg (by omega), if_pos (show num < 0x10000 from hlow)]
  · rw [if_pos hhigh]

/-- Registering a node for marshalling keeps what is registered and presented. -/
theorem Inv.registerNode {s : Session} (h : Inv s.tab s.log) {marshalling : Bool}
    (hop : InOrder s.log (.registerNode ptr marshalling)) :
    ∃ s', step s (.registerNode ptr marshalling) = some s' ∧ Inv s'.tab s'.log ∧
      unregisteredNumbers s'.log = unregisteredNumbers s.log ∧
      wasUnmarshalled s'.log = wasUnmarshalled s.log ∧
      ∀ num, lastRegistered s.log num ≠ 0 → lastRegistered s'.log num = lastRegistered s.log num := by
  show ∃ s', (s.tab.registerNode ptr marshalling).bind _ = some s' ∧ _
  by_cases hptr : ptr = 0
  · rw [NodeTable.registerNode, if_pos hptr, Option.bind_some]
    refine ⟨_, rfl, ?_⟩
    rw [numberedEvents, if_pos hptr]
    exact ⟨h, rfl, rfl, fun _ _ => rfl⟩
  cases hl : liveNumber s.log ptr with
  | some num =>
    obtain ⟨tab', flag, hrun, h'⟩ := h.registerNode_live hl marshalling
    have hlookup : s.tab.lookupNodeByPtr ptr = num :=
      NodeTable.lookupNodeByPtr_of_live (h.live_eq hl)
    rw [hrun, Option.bind_some]
    refine ⟨_, rfl, ?_⟩
    rw [numberedEvents, if_neg hptr, hlookup, decide_eq_false (h.live_pos hl).ne']
    exact ⟨h', rfl, rfl, fun _ _ => rfl⟩
  | none =>
    have hlast := (hop.resolve_left hptr).resolve_left (not_not.mpr hl)
    obtain ⟨tab', num, flag, hrun, hnew, h'⟩ := h.registerNode_new hptr hl hlast marshalling
    have hlookup : s.tab.lookupNodeByPtr ptr = 0 :=
      NodeTable.lookupNodeByPtr_of_not_live (h.live_none hptr hl)
    rw [hrun, Option.bind_some]
    refine ⟨_, rfl, ?_⟩
    rw [numberedEvents, if_neg hptr, hlookup, decide_eq_true rfl]
    refine ⟨h', rfl, rfl, fun num' hne => if_neg ?_⟩
    rintro rfl
    exact hne hnew

theorem step_inv {s : Session} {op : Op} (h : Inv s.tab s.log) (hallowed : Allowed s.log op)
    (hop : InOrder s.log op) : ∃ s', step s op = some s' ∧ Inv s'.tab s'.log := by
  cases op with
  | registerNode ptr marshalling =>
    obtain ⟨s', hs', h', -⟩ := h.registerNode hop
    exact ⟨s', hs', h'⟩
  | returnPointerToNode num alloc =>
    obtain ⟨hrange, halloc, hfresh⟩ := hallowed
    have hrework := reworkPointer_inRange s.maxPtr hrange
    show ∃ s', ((NodeTable.returnPointerToNode s.maxPtr s.tab num alloc).bind _).map _
      = some s' ∧ _
    by_cases h0 : lastRegistered s.log num = 0
    · obtain ⟨tab', hrun, h'⟩ :=
        h.returnPointerToNode_new hrework hrange.1 hrange.2.1 h0 halloc hfresh
      rw [hrun]
      exact ⟨_, rfl, h'⟩
    · obtain ⟨tab', hrun, h'⟩ := h.returnPointerToNode_old alloc hrework hop h0
      rw [hrun]
      exact ⟨_, rfl, h'⟩
  | lookupPointerToNode num =>
    obtain ⟨tab', hrun, h'⟩ := h.lookupPointerToNode (reworkPointer_inRange s.maxPtr hallowed) hop
    show ∃ s', ((NodeTable.lookupPointerToNode s.maxPtr s.tab num).bind _).map _ = some s' ∧ _
    rw [hrun]
    exact ⟨_, rfl, h'⟩
  | inquirePointerToNode num =>
    obtain ⟨hrun, h'⟩ := h.inquirePointerToNode (reworkPointer_inRange s.maxPtr hallowed) hop
    show ∃ s', ((NodeTable.inquirePointerToNode s.maxPtr s.tab num).bind _).map _ = some s' ∧ _
    rw [hrun]
    exact ⟨_, rfl, h'⟩
  | unregisterNode ptr => exact ⟨_, rfl, h.unregister ptr⟩

/-- The table answers as the log of the run says. -/
structure Sound (s : Session) : Prop where
  byNum : ∀ num < 2 ^ 32, s.tab.lookupNodeByNum num = some (lastRegistered s.log num)
  byPtr : ∀ ptr num, liveNumber s.log ptr = some num →
    s.tab.lookupNodeByPtr ptr = num ∧ lastRegistered s.log num = ptr ∧ 0 < num ∧ num < 2 ^ 32
  byPtr_none : ∀ ptr ≠ 0, liveNumber s.log ptr = none → s.tab.lookupNodeByPtr ptr = 0
  distinct : ∀ ptr ptr' num num', liveNumber s.log ptr = some num →
    liveNumber s.log ptr' = some num' → (ptr = ptr' ↔ num = num')
  answers : AnswersRight s.log
  deletes : s.tab.deletesReflected = true → ∃ nums,
    s.tab.marshDeletes = (nums.length, nums) ∧ nums.Nodup ∧ nums.Perm (unregisteredNumbers s.log)

/-- Fewer nodes are unregistered than there are numbers. -/
theorem Inv.length_lt (h : Inv tab log) : (unregisteredNumbers log).length < 2 ^ 32 := by
  have hsub : unregisteredNumbers log ⊆ (List.range (tab.highNum + 1)).tail := by
    intro num hmem
    have hlast := (h.dead num hmem).1
    have hne : num ≠ 0 := by
      rintro rfl
      rw [← h.addr, RootArray.addr_zero] at hlast
      exact hlast rfl
    have hle := h.le_high num hlast
    rw [List.range_succ_eq_map, List.tail_cons]
    exact List.mem_map.mpr ⟨num - 1, List.mem_range.mpr (by omega), by omega⟩
  have hle := (h.nodup.subperm hsub).length_le
  rw [List.length_tail, List.length_range, Nat.add_sub_cancel] at hle
  exact lt_of_le_of_lt hle h.high_lt

theorem Inv.sound {s : Session} (h : Inv s.tab s.log) : Sound s where
  byNum num _ := h.lookupNodeByNum num
  byPtr ptr num hl := by
    obtain ⟨hptr, hlast⟩ := h.back ptr num hl
    refine ⟨NodeTable.lookupNodeByPtr_of_live (h.live_eq hl), hlast, h.live_pos hl, ?_⟩
    exact lt_of_le_of_lt (h.le_high num (hlast.trans_ne hptr)) h.high_lt
  byPtr_none ptr hptr hl := NodeTable.lookupNodeByPtr_of_not_live (h.live_none hptr hl)
  distinct ptr ptr' num num' hl hl' := by
    constructor
    · rintro rfl
      exact Option.some_inj.mp (hl.symm.trans hl')
    · rintro rfl
      exact (h.back ptr num hl).2.symm.trans (h.back ptr' num hl').2
  answers := h.answers
  deletes hr := by
    have hperm := h.deletes hr
    have hlen : (s.tab.deletesList.map fun b => b.nodeNumbers.length).sum
        = s.tab.deletedNodes.length := by
      rw [NodeTable.deletedNodes, List.length_flatMap]
    have hlt : s.tab.deletedNodes.length < 2 ^ 32 := hperm.length_eq ▸ h.length_lt
    refine ⟨s.tab.deletedNodes, ?_, hperm.nodup_iff.mpr h.nodup, hperm⟩
    rw [NodeTable.marshDeletes, hlen, Nat.mod_eq_of_lt hlt]
    split
    · rename_i h0
      rw [List.length_eq_zero_iff.mp h0]
    · rfl

/-- In a run that presents no number of an unregistered node, and registers no node when the
number `2 ^ 32 - 1` is taken, no array index is out of range, and the table answers as the log
says. -/
theorem tableSound_of_along (maxPtr : ℕ) (reflect : Bool) (ops : List Op)
    (hops : Runs.Along step (fun s op => Allowed s.log op ∧ InOrder s.log op)
      (.init maxPtr reflect) ops) :
    ∃ t, Runs.exec step (.init maxPtr reflect) ops = some t ∧ Sound t := by
  obtain ⟨t, ht, h⟩ := Runs.exec_of_along (I := fun s => Inv s.tab s.log)
    (fun s op h hop => step_inv h hop.1 hop.2) (Inv.init reflect) hops
  exact ⟨t, ht, h.sound⟩

/-- Nodes registered for marshalling, received numbers near and far, and a node that goes. -/
def orderlyOps : List Op :=
  [.registerNode 32 true, .registerNode 8224 true, .registerNode 32 true,
    .returnPointerToNode 2 64, .lookupPointerToNode 70, .returnPointerToNode 0xffff0001 16416,
    .unregisterNode 8224, .registerNode 8224 false, .inquirePointerToNode 1]

theorem tableSound_of_along_orderlyOps :
    ∃ t, Runs.exec step (.init 1 true) orderlyOps = some t ∧ Sound t :=
  tableSound_of_along 1 true orderlyOps (by decide)

/-- The addresses 32 and 8224 share a chain.  When node 1 is gone, its number leads to the entry
of node 5, which has been unmarshalled. -/
def staleOps : List Op :=
  [.registerNode 32 true, .returnPointerToNode 5 8224, .unregisterNode 32, .lookupPointerToNode 1]

theorem not_tableSound :
    ¬ ∀ (maxPtr : ℕ) (reflect : Bool) (ops : List Op),
      Runs.Along step (fun s op => Allowed s.log op) (.init maxPtr reflect) ops →
        ∃ t, Runs.exec step (.init maxPtr reflect) ops = some t ∧ Sound t := by
  intro h
  obtain ⟨t, ht, hsound⟩ := h 1 true staleOps (by decide)
  have hlog : (Runs.exec step (.init 1 true) staleOps).map Session.log
      = some [.presented 1 32 true, .unregistered 32, .presented 5 8224 false,
          .registered 5 8224, .numbered 1 32 (some false), .registered 1 32] := by decide
  rw [ht, Option.map_some] at hlog
  have hanswers := hsound.answers
  rw [Option.some_inj.mp hlog] at hanswers
  -- node 1 has never been presented for unmarshalling
  exact absurd hanswers.1.2 (by decide)

end Nodes

end Idl
