/-
The limit on the length of a receive queue.

`RoomOk` is what the window test on out of order fragments is for: the queue
does not exceed its limit, and when it is full its head can be handed out.  It
fails when the limit is cut down under fragments that were accepted under the
old one (`wedged_run`), and it holds in every run in which each cut covers what
is on the queue (`room_of_limitCovers`).
-/
import FreeDce.Dg.RecvqRun

namespace Dg

open Runs

/-- The queue is within its limit, and if it is full its head is in order. -/
def RoomOk (rq : Recvq) : Prop :=
  rq.queueLen.toNat ≤ rq.maxQueueLen.toNat ∧
    (rq.queueLen.toNat = rq.maxQueueLen.toNat → rq.lastInorder ≠ none)

instance (rq : Recvq) : Decidable (RoomOk rq) := inferInstanceAs (Decidable (_ ∧ _))

/-- If the arrival cuts the limit down, the new limit, counted from the head,
lies beyond every fragment on the queue. -/
def LimitCovers (s : Receiver) : RecvEvent → Prop
  | .insert env pkt =>
    cutsLimit env s.rq pkt.fragLen = true → ∀ rqe ∈ s.rq.queue, ∀ hdr ∈ rqe.hdrp,
      Serial.Lt hdr.fragnum (s.rq.headFragnum + BitVec.ofNat 16 (reducedQueueLen env))
  | _ => True

instance (s : Receiver) : (e : RecvEvent) → Decidable (LimitCovers s e)
  | .insert _ _ => inferInstanceAs (Decidable (_ → _))
  | .receive _ _ | .orphan | .wayValidated => inferInstanceAs (Decidable True)

/-- What the run keeps: there is room, and as long as the call is not orphaned
the queue has a shape. -/
structure LimitInv (s : Receiver) : Prop where
  room : RoomOk s.rq
  shape : s.state ≠ .orphan →
    0 < s.rq.maxQueueLen.toNat ∧ ∃ v, Shape (fun _ _ => True) s.rq v

variable {P : RecvqElt → ℕ → Prop} {rq rq' : Recvq} {env : CallEnv} {pkt : Pkt}

/-- A shape leaves room: with nothing in order, the awaited fragment would fit. -/
theorem Shape.room {v : View} (h : Shape P rq v) (hpos : 0 < rq.maxQueueLen.toNat) :
    RoomOk rq := by
  rw [RoomOk, h.queueLen_toNat]
  refine ⟨h.length_le, fun hfull hlast => ?_⟩
  have hlt := h.length_lt_of_gap (h.lastInorder_eq_none.mp hlast) hpos
  omega

theorem limitInv_of_shape {s : Receiver} {v : View} (h : Shape (fun _ _ => True) s.rq v)
    (hpos : 0 < s.rq.maxQueueLen.toNat) : LimitInv s :=
  ⟨h.room hpos, fun _ => ⟨hpos, v, h⟩⟩

/-- The numbers on the queue lie below the new limit, so their indices do. -/
theorem beyond_lt_of_covers {v : View} (h : Shape P rq v) (hpos : 0 < v.inorder)
    (hcover : ∀ rqe ∈ rq.queue, ∀ hdr ∈ rqe.hdrp,
      Serial.Lt hdr.fragnum (rq.headFragnum + BitVec.ofNat 16 (reducedQueueLen env))) :
    ∀ i ∈ v.beyond, i < v.first + reducedQueueLen env := by
  intro i hi
  have hmax := h.max_le
  have hle := h.inorder_le
  have hred := reducedQueueLen_le env
  have habove := h.above i hi
  have hwin := h.window i hi
  obtain ⟨k, hk, rfl⟩ := List.getElem_of_mem hi
  have hlen := h.numbered_drop.length_eq
  have hnum := h.numbered_drop.get (i := k) (by omega) hk
  simp only [List.get_eq_getElem] at hnum
  have hmem := List.getElem_mem (l := rq.queue.drop v.inorder) (n := k) (by omega)
  obtain ⟨hdr, hhdr⟩ := Option.isSome_iff_exists.mp (h.headers_drop _ hmem)
  have hlt := hcover _ (List.mem_of_mem_drop hmem) hdr hhdr
  rw [(hnum hdr hhdr).1, h.headFragnum_eq hpos, ← BitVec.ofNat_add] at hlt
  unfold View.first at hlt hwin ⊢
  exact (Serial.lt_ofNat_iff (w := 15) (by omega) (by omega)).mp hlt

/-- One event. -/
theorem limitInv_step (s : Receiver) (e : RecvEvent) (s' : Receiver) (h : LimitInv s)
    (hcover : LimitCovers s e) (hstep : recvStep s e = some s') : LimitInv s' := by
  cases e with
  | insert env pkt =>
    simp only [recvStep, Option.ite_none_left_eq_some, Option.some_inj] at hstep
    obtain ⟨hstate, rfl⟩ := hstep
    obtain ⟨hpos, v, hv⟩ := h.shape hstate
    have hinorder : cutsLimit env s.rq pkt.fragLen = true → 0 < v.inorder := by
      intro hcut
      rw [← hv.inorderLen_toNat]
      exact (cutsLimit_spec hcut).2
    have harrive := noteArrival_shape env pkt hv fun hcut =>
      beyond_lt_of_covers hv (hinorder hcut) (hcover hcut)
    have hpos' : 0 < (noteArrival env s.rq pkt).maxQueueLen.toNat := by
      have hio := harrive.inorder_le_max
      by_cases hcut : cutsLimit env s.rq pkt.fragLen = true
      · have := hinorder hcut
        omega
      · rw [noteArrival_maxQueueLen, if_neg hcut]
        exact hpos
    rcases callRecvqInsert_cases env s.rq pkt with ⟨-, hrq⟩ | ⟨rq', henq, hrq⟩
    · exact limitInv_of_shape (v := v) (by rw [hrq]; exact harrive) (by rw [hrq]; exact hpos')
    · obtain ⟨v', hv', -⟩ := enqueue_shape harrive (fun _ _ _ _ => trivial) henq
      refine limitInv_of_shape (v := v') (by rw [hrq]; exact hv') ?_
      rw [hrq, noteAccepted_maxQueueLen, (enqueue_frame henq).1]
      exact hpos'
  | receive status auth =>
    simp only [recvStep, Option.some_inj] at hstep
    subst hstep
    by_cases hstate : s.state = .orphan
    · refine ⟨?_, fun hc => absurd hstate hc⟩
      rcases callReceiveInt_cases status s.state auth s.rq with
        ⟨hrq, -⟩ | ⟨-, hrq, -⟩ | ⟨rqe, rest, hne, -⟩
      · rw [hrq]
        exact h.room
      · rw [hrq]
        exact h.room
      · exact absurd hstate hne
    · obtain ⟨hpos, v, hv⟩ := h.shape hstate
      obtain ⟨v', hv', -⟩ := receive_shape status auth hv hstate
      refine limitInv_of_shape (v := v') hv' ?_
      rw [callReceiveInt_maxQueueLen]
      exact hpos
  | orphan =>
    cases hstep
    exact ⟨h.room, fun hc => absurd rfl hc⟩
  | wayValidated =>
    cases hstep
    refine ⟨h.room, fun hstate => ?_⟩
    obtain ⟨hpos, v, hv⟩ := h.shape hstate
    exact ⟨hpos, v, hv.wayValidated⟩

/-- **No wedge.**  A receive queue that starts empty never exceeds its limit, and
when it is full its head can be handed out, in every run in which each cut of
the limit covers what is on the queue. -/
theorem room_of_limitCovers {es : List RecvEvent} {s : Receiver}
    (hcover : Along recvStep LimitCovers {} es) (hrun : exec recvStep {} es = some s) :
    RoomOk s.rq := by
  have hinit : LimitInv {} := limitInv_of_shape (v := ⟨0, 0, []⟩) recvqInit_shape (by decide)
  exact (exec_invariant limitInv_step hinit hcover hrun).room

/-! ### The wedge -/

/-- A call with two packet reservations, so the limit goes down from 96 to 48. -/
def twoResvs : CallEnv := { nResvs := 2, maxResvs := 2 }

/-- Fragment `n` of a fragmented request. -/
def fragPkt (n fragLen : ℕ) : Pkt :=
  { hdr := { flags := pfFrag, fragnum := BitVec.ofNat 16 n }, fragLen := fragLen }

theorem room_of_limitCovers_cut :
    Along recvStep LimitCovers {}
        [.insert twoResvs (fragPkt 0 100), .insert twoResvs (fragPkt 1 2000)] ∧
      RoomOk (callRecvqInsert twoResvs (callRecvqInsert twoResvs recvqInit (fragPkt 0 100)).rq
        (fragPkt 1 2000)).rq := by
  have hcover : Along recvStep LimitCovers {}
      [.insert twoResvs (fragPkt 0 100), .insert twoResvs (fragPkt 1 2000)] := by decide
  exact ⟨hcover, room_of_limitCovers hcover rfl⟩

/-- Fragment 0 is in order and fragments 10 to 56 wait behind the gap when the
first large fragment cuts the limit to 48.  Fragment 0 is handed out, and
fragment 2 fills the queue up. -/
def wedgeRun : List RecvEvent :=
  .insert twoResvs (fragPkt 0 100) ::
    (List.range' 10 47).map (fun n => .insert twoResvs (fragPkt n 100)) ++
    [.insert twoResvs (fragPkt 1 2000), .receive .ok .passed, .insert twoResvs (fragPkt 2 100)]

/-- After that run the queue is full, nothing is in order, and fragment 1, which
is awaited, is refused. -/
theorem wedged_run :
    ¬ ∀ (es : List RecvEvent) (s : Receiver), exec recvStep {} es = some s → RoomOk s.rq := by
  intro h
  have hwedged : ∃ s, exec recvStep {} wedgeRun = some s ∧ ¬ RoomOk s.rq := by
    decide +kernel
  obtain ⟨s, hs, hbad⟩ := hwedged
  exact hbad (h _ s hs)

end Dg
