/-
Runs of the receiving side of a call.

`Receiver` is what insertion and removal share: the queue, the state of the
call, and the buffers that were handed out.  `recvStep` is one arrival, one pass
through `rpc__dg_call_receive_int`, the orphaning of the call, or the end of its
who-are-you validation.
-/
import FreeDce.Dg.RecvqShape
import FreeDce.Lib.Runs

namespace Dg

variable {P : RecvqElt → ℕ → Prop} {rq rq' : Recvq} {env : CallEnv} {pkt : Pkt}

/-- The receiving side of a call. -/
structure Receiver where
  rq : Recvq := recvqInit
  state : CallState := .recv
  handed : List Iove := []

inductive RecvEvent
  | insert (env : CallEnv) (pkt : Pkt)
  | receive (status : Status) (auth : AuthCheck)
  | orphan
  | wayValidated

/-- The buffer that a pass through the receive routine takes off the queue. -/
def Receive.taken : Receive → List Iove
  | .data iove _ => [iove]
  | _ => []

/-- One event.  Packets for an orphaned call are dropped before they get here. -/
def recvStep (s : Receiver) : RecvEvent → Option Receiver
  | .insert env pkt =>
    if s.state = .orphan then none
    else some { s with rq := (callRecvqInsert env s.rq pkt).rq }
  | .receive status auth =>
    let res := callReceiveInt status s.state auth s.rq
    some { s with rq := res.1, handed := s.handed ++ res.2.taken }
  | .orphan => some { s with state := .orphan }
  | .wayValidated => some { s with rq := { s.rq with isWayValidated := true } }

/-! ### What each event does -/

/-- An arrival is either dropped or accepted by `enqueue`. -/
theorem callRecvqInsert_cases (env : CallEnv) (rq : Recvq) (pkt : Pkt) :
    (enqueue env (noteArrival env rq pkt) pkt = none ∧
      (callRecvqInsert env rq pkt).rq = noteArrival env rq pkt) ∨
    ∃ rq', enqueue env (noteArrival env rq pkt) pkt = some rq' ∧
      (callRecvqInsert env rq pkt).rq = noteAccepted rq' pkt := by
  unfold callRecvqInsert
  rcases henq : enqueue env (noteArrival env rq pkt) pkt with _ | rq'
  · exact .inl ⟨rfl, by simp only [henq]; rfl⟩
  · exact .inr ⟨rq', rfl, by simp only [henq]; rfl⟩

/-- A pass through the receive routine leaves the queue alone and hands out
nothing, or finds the call orphaned and frees the queue, or takes the first
buffer off a queue that has something in order. -/
theorem callReceiveInt_cases (status : Status) (state : CallState) (auth : AuthCheck)
    (rq : Recvq) :
    ((callReceiveInt status state auth rq).1 = rq ∧
      (callReceiveInt status state auth rq).2.taken = []) ∨
    (state = .orphan ∧ (callReceiveInt status state auth rq).1 = recvqFree rq ∧
      (callReceiveInt status state auth rq).2.taken = []) ∨
    ∃ rqe rest, state ≠ .orphan ∧ rq.lastInorder ≠ none ∧ rq.queue = rqe :: rest ∧
      (callReceiveInt status state auth rq).1 = dequeue rq rqe rest ∧
      (callReceiveInt status state auth rq).2.taken = [recvqIovectorSetup rqe] := by
  unfold callReceiveInt
  split_ifs with hst horphan heod hwait
  · exact .inl ⟨rfl, rfl⟩
  · exact .inr (.inl ⟨horphan, rfl, rfl⟩)
  · exact .inl ⟨rfl, rfl⟩
  · exact .inl ⟨rfl, rfl⟩
  · rcases hqueue : rq.queue with _ | ⟨rqe, rest⟩
    · exact .inl ⟨rfl, rfl⟩
    · dsimp only
      split
      · exact .inl ⟨rfl, rfl⟩
      · exact .inl ⟨rfl, rfl⟩
      · exact .inr (.inr ⟨rqe, rest, horphan, hwait, rfl, rfl, rfl⟩)

theorem dequeue_maxQueueLen (rq : Recvq) (rqe : RecvqElt) (rest : List RecvqElt) :
    (dequeue rq rqe rest).maxQueueLen = rq.maxQueueLen := by
  unfold dequeue
  rcases rqe.moreData with _ | ⟨body, more⟩ <;> rfl

theorem callReceiveInt_maxQueueLen (status : Status) (state : CallState) (auth : AuthCheck)
    (rq : Recvq) : (callReceiveInt status state auth rq).1.maxQueueLen = rq.maxQueueLen := by
  rcases callReceiveInt_cases status state auth rq with
    ⟨hrq, -⟩ | ⟨-, hrq, -⟩ | ⟨rqe, rest, -, -, -, hrq, -⟩
  · rw [hrq]
  · rw [hrq]
    rfl
  · rw [hrq, dequeue_maxQueueLen]

/-! ### The shape over one event -/

/-- The shape does not depend on the flags that go with the queue. -/
theorem Shape.wayValidated {v : View} (h : Shape P rq v) :
    Shape P { rq with isWayValidated := true } v :=
  h.of_sameQueue ⟨rfl, rfl, rfl, rfl, rfl, rfl, rfl⟩ h.window h.inorder_le_max h.max_le

/-- Taking a buffer off the queue does not move the awaited index. -/
theorem receive_shape (status : Status) (auth : AuthCheck) {v : View} {state : CallState}
    (h : Shape P rq v) (hstate : state ≠ .orphan) :
    ∃ v', Shape P (callReceiveInt status state auth rq).1 v' ∧ v'.next = v.next := by
  rcases callReceiveInt_cases status state auth rq with
    ⟨hrq, -⟩ | ⟨horphan, -⟩ | ⟨rqe, rest, -, hlast, hqueue, hrq, -⟩
  · exact ⟨v, by rw [hrq]; exact h, rfl⟩
  · exact absurd horphan hstate
  · have hpos : 0 < v.inorder := by
      have hne := mt h.lastInorder_eq_none.mpr hlast
      omega
    refine ⟨_, by rw [hrq]; exact dequeue_shape h hqueue hpos, ?_⟩
    split <;> rfl

end Dg
