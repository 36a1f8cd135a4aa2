/-
The transfer of the fragments of a call, from the transmit queue of one side to the stub of the
other (dgcall.c, dglsn.c, dgxq.c, dgrq.c).

The sender queues fragments and sends blasts of them, also again; the network loses, delays, repeats
and reorders copies and facks; the receiver sorts the copies in and tells in a fack what it has.

* `receiver_insert` — what an arrival adds to what the receiver has;
* `tells_of_fack` — what a fack says, in the terms of the receiver;
* `has_of_named`, `fits_of_tells` — what it means for the sender;
* `agrees_of_exec` — in every run the stub gets an initial segment of the stream, nothing leaves the
  transmit queue that the receiver does not have, and the sender comes through every fack;
* `received_of_acked` — where the transmit queue is empty, all was received.
-/
import FreeDce.Dg.SenderOrder
import FreeDce.Dg.XmitFack
import FreeDce.Dg.SelackExact

namespace Dg

namespace Transfer

open Selack Runs

variable {stream : List Frag} {rq rq' : Recvq} {v : View} {r : Receiver}

/-! ### What the receiver has -/

/-- Fragment `i` was received in order, or it is on the queue behind the gap. -/
def Has (r : Receiver) (i : ℕ) : Prop :=
  i < r.received.length ∨
    r.received.length < i ∧ i < r.received.length + 255 ∧ r.rq.HasPast (BitVec.ofNat 16 i)

theorem mem_of_forall₂ {α β : Type*} {R : α → β → Prop} {l : List α} {m : List β}
    (h : List.Forall₂ R l m) : (∀ a ∈ l, ∃ b ∈ m, R a b) ∧ ∀ b ∈ m, ∃ a ∈ l, R a b := by
  induction h with
  | nil => exact ⟨fun _ ha => absurd ha List.not_mem_nil, fun _ hb => absurd hb List.not_mem_nil⟩
  | @cons a b l m hab _ ih =>
    refine ⟨fun x hx => ?_, fun y hy => ?_⟩
    · rcases List.mem_cons.mp hx with rfl | hx
      · exact ⟨b, List.mem_cons_self, hab⟩
      · obtain ⟨y, hy, hxy⟩ := ih.1 x hx
        exact ⟨y, List.mem_cons_of_mem _ hy, hxy⟩
    · rcases List.mem_cons.mp hy with rfl | hy
      · exact ⟨a, List.mem_cons_self, hab⟩
      · obtain ⟨x, hx, hxy⟩ := ih.2 y hy
        exact ⟨x, List.mem_cons_of_mem _ hx, hxy⟩

theorem indices_bounds {P : RecvqElt → ℕ → Prop} (h : Shape P rq v) {i : ℕ} (hi : i ∈ v.indices) :
    v.first ≤ i ∧ i < v.first + rq.maxQueueLen.toNat := by
  have hle := h.inorder_le
  have hio := h.inorder_le_max
  unfold View.indices at hi
  rcases List.mem_append.mp hi with hi | hi
  · rw [List.mem_range'_1] at hi
    omega
  · have := h.above i hi
    have := h.window i hi
    unfold View.first at *
    omega

/-- The numbers behind the gap are those of the view. -/
theorem hasPast_iff {P : RecvqElt → ℕ → Prop} (h : Shape P rq v) {i : ℕ} (hlo : v.next < i + 2 ^ 15)
    (hhi : i < v.next + 2 ^ 15) : rq.HasPast (BitVec.ofNat 16 i) ↔ i ∈ v.beyond := by
  have hdrop : rq.pastInorder = rq.queue.drop v.inorder := by
    rw [Recvq.pastInorder, h.inorderPos_eq]
  obtain ⟨hmem, hmem'⟩ := mem_of_forall₂ h.numbered_drop
  rw [Recvq.HasPast, hdrop]
  constructor
  · rintro ⟨rqe, hrqe, hdr, hhdr, hfrag⟩
    obtain ⟨j, hj, hnum⟩ := hmem rqe hrqe
    have hlt := h.above j hj
    have hwin := h.window j hj
    have hmax := h.max_le
    unfold View.first at hwin
    have heq := Serial.ofNat_inj_near ((hnum hdr hhdr).1.symm.trans hfrag) (by omega) (by omega)
    exact heq ▸ hj
  · intro hi
    obtain ⟨rqe, hrqe, hnum⟩ := hmem' i hi
    obtain ⟨hdr, hhdr⟩ := Option.isSome_iff_exists.mp (h.headers_drop rqe hrqe)
    exact ⟨rqe, hrqe, hdr, hhdr, (hnum hdr hhdr).1⟩

theorem has_iff (h : StreamInv stream r v) {i : ℕ} : Has r i ↔ i < v.next ∨ i ∈ v.beyond := by
  rw [Has, h.awaited]
  refine or_congr_right ⟨fun ⟨hlt, hwin, hpast⟩ => ?_, fun hi => ?_⟩
  · exact (hasPast_iff h.shape (by omega) (by omega)).mp hpast
  · have hlt := h.shape.above i hi
    have hwin := h.shape.window i hi
    have hmax := h.shape.max_le
    unfold View.first at hwin
    exact ⟨hlt, by omega, (hasPast_iff h.shape (by omega) (by omega)).mpr hi⟩

/-- What is in order or behind the gap. -/
theorem has_iff_indices (h : StreamInv stream r v) {i : ℕ} :
    Has r i ↔ i < v.first ∨ i ∈ v.indices := by
  have hle := h.shape.inorder_le
  rw [has_iff h, View.indices, List.mem_append, List.mem_range'_1, ← or_assoc]
  refine or_congr_left ?_
  unfold View.first
  omega

/-- The view after an arrival goes on from the one before. -/
theorem streamInv_grows {env : CallEnv} {pkt : Pkt} (h : StreamInv stream r v)
    (hadm : Admissible stream r (.insert env pkt)) :
    ∃ v', StreamInv stream { r with rq := (callRecvqInsert env r.rq pkt).rq } v' ∧
      v'.first = v.first ∧ v.next ≤ v'.next ∧
      (callRecvqInsert env r.rq pkt).rq.maxQueueLen = r.rq.maxQueueLen ∧
      ∀ rqe ∈ (callRecvqInsert env r.rq pkt).rq.queue.drop v.inorder, rqe.hdrp.isSome := by
  obtain ⟨hcut, i, hfrag, hcopy, hnear⟩ := id hadm
  rw [h.awaited] at hnear
  have hcut' : ¬ cutsLimit env r.rq pkt.fragLen = true := by rw [hcut]; exact Bool.false_ne_true
  have hshape := noteArrival_shape env pkt h.shape (fun hc => absurd hc hcut')
  have hsame := noteArrival_sameQueue env r.rq pkt
  have hmax := noteArrival_maxQueueLen env r.rq pkt
  rw [if_neg hcut'] at hmax
  have hioves : (noteArrival env r.rq pkt).inorderIoves = r.rq.inorderIoves := by
    rw [Recvq.inorderIoves, Recvq.inorderIoves, Recvq.inorderPos, Recvq.inorderPos, hsame.queue,
      hsame.lastInorder]
  rcases callRecvqInsert_cases env r.rq pkt with ⟨-, hrq⟩ | ⟨rq', henq, hrq⟩
  · refine ⟨v, ⟨by rw [hrq]; exact hshape, ?_, h.next_le, ?_⟩, rfl, le_rfl, by rw [hrq, hmax], ?_⟩
    · rw [Receiver.received, hrq, hioves]
      exact h.received
    · rw [hrq, hsame.allPktsRecvd]
      exact h.complete
    · rw [hrq]
      exact hshape.headers_drop
  · obtain ⟨v', hv', hfirst, hnext, htake, hheaders⟩ := enqueue_shape hshape
      (fun j hj hlo hhi => by
        rw [hnear j hlo (by rw [← hmax]; exact hhi) (by rw [← hj, hfrag])]
        exact hcopy) henq
    obtain ⟨hgrow, hnum⟩ := inorderIoves_grow hshape hv' hfirst hnext (by simpa using htake)
    obtain ⟨hreceived, hle⟩ := reassemble_append_numbered h.received h.next_le hnum (by
      intro rqe hmem
      apply hheaders
      rw [noteAccepted_queue, List.drop_take] at hmem
      exact List.mem_of_mem_take hmem)
    rw [hioves] at hgrow
    rw [Nat.add_sub_cancel' hnext] at hreceived hle
    have hreceived' : Receiver.received { r with rq := (callRecvqInsert env r.rq pkt).rq } =
        stream.take v'.next := by
      rw [Receiver.received, hrq, hgrow, ← List.append_assoc]
      exact hreceived
    -- the index of the awaited fragment is the number of those received
    obtain ⟨w, hw⟩ := streamInv_insert h hadm
    have hsameNext : v'.next = w.next := by
      rw [← hw.awaited, hreceived', List.length_take, Nat.min_eq_left hle]
    refine ⟨v', ⟨by rw [hrq]; exact hv', hreceived', hle, fun hall => hsameNext.trans
      (hw.complete hall)⟩, hfirst, hnext, ?_, ?_⟩
    · rw [hrq, noteAccepted_maxQueueLen, (enqueue_frame henq).1, hmax]
    · rw [hrq, noteAccepted_queue]
      exact hheaders

/-- An arrival changes the queue by its own element at most. -/
theorem mem_queue_insert (env : CallEnv) (rq : Recvq) (pkt : Pkt) :
    (∀ rqe ∈ rq.queue, rqe ∈ (callRecvqInsert env rq pkt).rq.queue) ∧
      ∀ rqe ∈ (callRecvqInsert env rq pkt).rq.queue, rqe = pkt.elt ∨ rqe ∈ rq.queue := by
  have hsame := noteArrival_sameQueue env rq pkt
  rcases callRecvqInsert_cases env rq pkt with ⟨-, hrq⟩ | ⟨rq', henq, hrq⟩
  · rw [hrq, hsame.queue]
    exact ⟨fun _ hmem => hmem, fun _ hmem => .inr hmem⟩
  · obtain ⟨pos, hpos⟩ := enqueue_queue henq
    rw [hrq, noteAccepted_queue, hpos, hsame.queue]
    refine ⟨fun rqe hold => ?_, fun rqe hmem => ?_⟩
    · rw [← List.take_append_drop pos rq.queue] at hold
      rcases List.mem_append.mp hold with hold | hold
      · exact List.mem_append_left _ hold
      · exact List.mem_append_right _ (List.mem_cons_of_mem _ hold)
    · rw [List.mem_append, List.mem_cons] at hmem
      rcases hmem with hmem | hmem | hmem
      · exact .inr (List.mem_of_mem_take hmem)
      · exact .inl hmem
      · exact .inr (List.mem_of_mem_drop hmem)

/-- The number of an element on the queue tells its index. -/
theorem mem_indices_of_fragnum {P : RecvqElt → ℕ → Prop} (h : Shape P rq v) {rqe : RecvqElt}
    (hmem : rqe ∈ rq.queue) {hdr : PktHdr} (hhdr : rqe.hdrp = some hdr) {j : ℕ}
    (hfrag : hdr.fragnum = BitVec.ofNat 16 j) (hlo : v.first ≤ j) (hhi : j < v.first + 2 ^ 15) :
    j ∈ v.indices := by
  obtain ⟨j', hj', hnum⟩ := (mem_of_forall₂ h.numbered).1 rqe hmem
  have hin := indices_bounds h hj'
  have hlimit := h.max_le
  have heq := Serial.ofNat_inj_near (hfrag.symm.trans (hnum hdr hhdr).1) (by omega) (by omega)
  exact heq ▸ hj'

/-- What is not in order yet is behind what is. -/
theorem mem_indices_drop {w : View} (hle : v.inorder ≤ v.next) (hle' : w.inorder ≤ w.next)
    (hfirst : w.first = v.first) (hnext : v.next ≤ w.next) {j : ℕ} (hj : j ∈ w.indices)
    (hnot : v.next ≤ j) : j ∈ w.indices.drop v.inorder := by
  unfold View.first at hfirst
  unfold View.indices at hj ⊢
  rw [List.drop_append_of_le_length (by rw [List.length_range']; omega), List.drop_range']
  refine (List.mem_append.mp hj).elim (fun hj => List.mem_append_left _ ?_)
    fun hj => List.mem_append_right _ hj
  rw [List.mem_range'_1] at hj ⊢
  unfold View.first at hj ⊢
  omega

/-- **What an arrival adds**: nothing is lost, and only the fragment that arrives is new. -/
theorem receiver_insert {env : CallEnv} {pkt : Pkt} {i : ℕ} (h : StreamInv stream r v)
    (hadm : Admissible stream r (.insert env pkt)) (hfrag : pkt.hdr.fragnum = BitVec.ofNat 16 i)
    (hnear : ∀ j, v.next ≤ j → j < v.next + r.rq.maxQueueLen.toNat →
      BitVec.ofNat 16 j = BitVec.ofNat 16 i → j = i) :
    ∃ v', StreamInv stream { r with rq := (callRecvqInsert env r.rq pkt).rq } v' ∧
      (∀ j, Has r j → Has { r with rq := (callRecvqInsert env r.rq pkt).rq } j) ∧
      ∀ j, Has { r with rq := (callRecvqInsert env r.rq pkt).rq } j → Has r j ∨ j = i := by
  obtain ⟨v', hv', hfirst, hnext, hmax, hheaders⟩ := streamInv_grows h hadm
  obtain ⟨hkeeps, hnew⟩ := mem_queue_insert env r.rq pkt
  have hle := h.shape.inorder_le
  have hlimit := h.shape.max_le
  refine ⟨v', hv', fun j hj => ?_, fun j hj => ?_⟩
  · rw [has_iff h] at hj
    rw [has_iff_indices hv']
    rcases hj with hj | hj
    · rw [← has_iff_indices hv', has_iff hv']
      exact .inl (by omega)
    · -- its element is still on the queue, where its index is the same
      obtain ⟨rqe, hrqe, hnum⟩ := (mem_of_forall₂ h.shape.numbered_drop).2 j hj
      obtain ⟨hdr, hhdr⟩ := Option.isSome_iff_exists.mp (h.shape.headers_drop rqe hrqe)
      have hin := indices_bounds h.shape (List.mem_append_right _ hj)
      exact .inr (mem_indices_of_fragnum hv'.shape (hkeeps _ (List.mem_of_mem_drop hrqe)) hhdr
        (hnum hdr hhdr).1 (by omega) (by omega))
  · rw [has_iff_indices hv', hfirst] at hj
    rw [has_iff_indices h]
    rcases hj with hj | hj
    · exact .inl (.inl hj)
    · have hin := indices_bounds hv'.shape hj
      dsimp only at hin
      rw [hfirst, hmax] at hin
      by_cases hold : j < v.next
      · refine .inl (.inr (List.mem_append_left _ (List.mem_range'_1.mpr ?_)))
        unfold View.first at *
        omega
      · -- behind what was in order before, each element has its header
        obtain ⟨rqe, hrqe, hnum⟩ :=
          (mem_of_forall₂ (List.forall₂_drop v.inorder hv'.shape.numbered)).2 j
            (mem_indices_drop hle hv'.shape.inorder_le hfirst hnext hj (not_lt.mp hold))
        obtain ⟨hdr, hhdr⟩ := Option.isSome_iff_exists.mp (hheaders rqe hrqe)
        rcases hnew rqe (List.mem_of_mem_drop hrqe) with rfl | hmem
        · obtain rfl : pkt.hdr = hdr := Option.some_inj.mp hhdr
          refine .inr (hnear j (by omega) ?_ ((hnum _ hhdr).1.symm.trans hfrag))
          unfold View.first at hin
          omega
        · exact .inl (.inr (mem_indices_of_fragnum h.shape hmem hhdr (hnum hdr hhdr).1 hin.1
            (by omega)))

theorem has_congr {r r' : Receiver} (hreceived : r'.received = r.received)
    (hpast : r'.rq.pastInorder = r.rq.pastInorder) (i : ℕ) : Has r' i ↔ Has r i := by
  rw [Has, Has, Recvq.HasPast, Recvq.HasPast, hreceived, hpast]

/-- What is behind the gap stays there. -/
theorem pastInorder_dequeue {rqe : RecvqElt} {rest : List RecvqElt}
    (hqueue : rq.queue = rqe :: rest) (hlast : rq.lastInorder ≠ none) :
    (dequeue rq rqe rest).pastInorder = rq.pastInorder := by
  obtain ⟨k, hk⟩ := Option.ne_none_iff_exists'.mp hlast
  rw [Recvq.pastInorder, Recvq.pastInorder, Recvq.inorderPos, Recvq.inorderPos, hk, hqueue]
  rcases hmore : rqe.moreData with _ | ⟨body, more⟩
  · simp only [dequeue, hmore, noteHeadSerial, hk]
    rcases k with _ | k <;> rfl
  · simp only [dequeue, hmore, noteHeadSerial, hk]
    rfl

/-- What the stub takes it has, and it takes nothing else. -/
theorem receiver_receive (status : Status) (auth : AuthCheck) (h : StreamInv stream r v)
    (hstate : r.state ≠ .orphan) :
    ∃ v', StreamInv stream
      { r with
        rq := (callReceiveInt status r.state auth r.rq).1
        handed := r.handed ++ (callReceiveInt status r.state auth r.rq).2.taken } v' ∧
      ∀ i, Has
        { r with
          rq := (callReceiveInt status r.state auth r.rq).1
          handed := r.handed ++ (callReceiveInt status r.state auth r.rq).2.taken } i ↔
        Has r i := by
  obtain ⟨v', hv'⟩ := streamInv_receive status auth h hstate
  refine ⟨v', hv', fun i => has_congr ?_ ?_ i⟩
  all_goals
    rcases callReceiveInt_cases status r.state auth r.rq with
      ⟨hrq, htaken⟩ | ⟨horphan, -⟩ | ⟨rqe, rest, -, hlast, hqueue, hrq, htaken⟩
  · rw [Receiver.received, hrq, htaken, List.append_nil]
    rfl
  · exact absurd horphan hstate
  · rw [Receiver.received, Receiver.received, hrq, htaken, ← received_dequeue hqueue hlast,
      List.append_assoc]
    rfl
  · rw [hrq]
  · exact absurd horphan hstate
  · rw [hrq]
    exact pastInorder_dequeue hqueue hlast

/-! ### A fack on its way -/

theorem swab16_swab16 (n : BitVec 16) : Bytes.swab16 (Bytes.swab16 n) = n := by
  refine BitVec.eq_of_getLsbD_eq fun i hi => ?_
  simp only [Bytes.swab16, BitVec.getLsbD_append, BitVec.getLsbD_extractLsb']
  grind

theorem swab32_swab32 (n : BitVec 32) : Bytes.swab32 (Bytes.swab32 n) = n := by
  refine BitVec.eq_of_getLsbD_eq fun i hi => ?_
  simp only [Bytes.swab32, BitVec.getLsbD_append, BitVec.getLsbD_extractLsb']
  grind

/-- What the packet depends on besides the `Fack`: whether the byte order of the other side is
another one, the two sizes that are offered, and what is behind the mask in the buffer. -/
structure Wire where
  foreign : Bool := false
  maxTsdu : BitVec 32 := 1024
  maxFragSize : BitVec 32 := 1024
  behind : ℕ → BitVec 32 := fun _ => 0

/-- The packet as the other side gets it.  The body is in the byte order of the receiver. -/
def onWire (wire : Wire) (fack : Fack) : FackPkt :=
  let out16 : BitVec 16 → BitVec 16 := if wire.foreign then Bytes.swab16 else id
  let out32 : BitVec 32 → BitVec 32 := if wire.foreign then Bytes.swab32 else id
  { fragnum := fack.fragnum
    len := fack.len
    foreign := wire.foreign
    vers := fackpktBodyVers
    windowSize := out16 fack.windowSize
    maxTsdu := out32 wire.maxTsdu
    maxFragSize := out32 wire.maxFragSize
    serialNum := out16 fack.serialNum
    selackLen := out16 (BitVec.ofNat 16 fack.selackLen)
    selack := fun i => if i < fack.selackLen then out32 (fack.selack.getD i 0) else wire.behind i }

theorem numWords_onWire {wire : Wire} {fack : Fack} (hlen : fack.selackLen < 2 ^ 16) :
    (onWire wire fack).numWords = fack.selackLen := by
  rw [FackPkt.numWords, FackPkt.inq16, onWire]
  cases wire.foreign with
  | true => simpa [swab16_swab16] using hlen
  | false => simpa using hlen

theorem words_onWire {wire : Wire} {fack : Fack} {i : ℕ} (hi : i < fack.selackLen) :
    (onWire wire fack).words i = fack.selack.getD i 0 := by
  rw [FackPkt.words, FackPkt.inq32, onWire]
  cases wire.foreign with
  | true => simp [swab32_swab32, hi]
  | false => simp [hi]

/-- The fack says that fragment `f` is awaited; what it acknowledges is there, and the last word of
its mask has a bit. -/
structure Tells (has : ℕ → Prop) (f : ℕ) (pkt : FackPkt) : Prop where
  body : pkt.usingSelacks = true
  header : pkt.fragnum + 1 = BitVec.ofNat 16 f
  before : ∀ i < f, has i
  bits : ∀ k, k / 32 < pkt.numWords → selackBit pkt.words k = true → has (f + k)
  lastWord : ∀ m, pkt.numWords = m + 1 → pkt.words m ≠ 0

theorem Tells.mono {has has' : ℕ → Prop} {f : ℕ} {pkt : FackPkt} (h : Tells has f pkt)
    (hmono : ∀ i, has i → has' i) : Tells has' f pkt :=
  ⟨h.body, h.header, fun i hi => hmono i (h.before i hi),
    fun k hk hbit => hmono _ (h.bits k hk hbit), h.lastWord⟩

/-- A fack says what the receiver has. -/
theorem tells_of_fack {w : View} {env : FackEnv} {rqe : Option RecvqElt} {isNocall : Bool}
    {fack : Fack} (h : StreamInv stream r v) (hloose : Loose r.rq w)
    (hfack : callXmitFack env r.rq rqe isNocall = some fack) (wire : Wire) :
    Tells (Has r) r.received.length (onWire wire fack) := by
  rw [callXmitFack, Option.map_eq_some_iff] at hfack
  obtain ⟨mask, hmask, heq⟩ := hfack
  have hselackLen : fack.selackLen = numElements r.rq := by rw [← heq]
  have hselack : fack.selack = mask := by rw [← heq]
  have hnot : NotWrapped r.rq := hloose.selack_isSome.mp (by rw [hmask]; rfl)
  obtain ⟨-, hbits⟩ := hloose.maskBit_selack hnot hmask
  have hnum := hloose.numElements_eq
  obtain ⟨hlo, hhi⟩ := hloose.high_bounds
  have hfew : numElements r.rq ≤ 4 := by
    rw [hnum]
    split <;> omega
  have hwords : (onWire wire fack).numWords = numElements r.rq := by
    rw [numWords_onWire (by omega), hselackLen]
  have hbit : ∀ k, k / 32 < numElements r.rq → (selackBit (onWire wire fack).words k = true ↔
      r.rq.HasPast (BitVec.ofNat 16 (v.next + k))) := by
    intro k hk
    rw [selackBit, words_onWire (by omega), hselack, BitVec.ofNat_add, ← h.shape.next_eq]
    exact hbits k (by omega)
  rw [h.awaited]
  refine ⟨?_, ?_, fun i hi => (has_iff h).mpr (.inl hi), fun k hk hset => ?_, fun m hm => ?_⟩
  · have hlong : 12 < rawFackpktBodySize + (numElements r.rq - 1) * 4 := by
      rw [rawFackpktBodySize]
      omega
    rw [FackPkt.usingSelacks, Bool.and_eq_true, decide_eq_true_eq, decide_eq_true_eq, ← heq]
    exact ⟨hlong, rfl⟩
  · rw [← h.shape.next_eq, onWire, ← heq]
    exact sub_add_cancel _ _
  · rw [hwords] at hk
    refine (has_iff h).mpr (.inr ?_)
    exact (hasPast_iff h.shape (by omega) (by omega)).mp ((hbit k hk).mp hset)
  · -- the highest fragment is the one of the last bit
    rw [hwords] at hm
    rw [hm] at hnum
    split at hnum
    · cases hnum
    · rename_i hne
      obtain ⟨init, last, hsplit⟩ : ∃ init last, w.beyond = init ++ [last] := by
        rcases List.eq_nil_or_concat w.beyond with hnil | ⟨init, last, hsplit⟩
        · exact absurd hnil hne
        · exact ⟨init, last, by rw [hsplit, List.concat_eq_append]⟩
      have hlast : last ∈ w.beyond := hsplit ▸ List.mem_append_right _ List.mem_cons_self
      have hhigh : w.high = last + 1 := by
        rw [View.high, hsplit, List.getLast?_concat]
        rfl
      have habove := hloose.above last hlast
      have hpast : r.rq.HasPast (BitVec.ofNat 16 last) := by
        obtain ⟨rqe', hmem, hnum'⟩ := (mem_of_forall₂ hloose.numbered).2 last hlast
        obtain ⟨hdr, hhdr⟩ := Option.isSome_iff_exists.mp (hloose.headers rqe' hmem)
        exact ⟨rqe', hloose.pastInorder_eq ▸ hmem, hdr, hhdr, (hnum' hdr hhdr).1⟩
      have hset := (hbits (last - w.next) (by omega)).mpr (by
        rw [hloose.next_eq, ← BitVec.ofNat_add, Nat.add_sub_cancel' habove.le]
        exact hpast)
      rw [words_onWire (by omega), hselack]
      intro hzero
      rw [maskBit, show (last - w.next) / 32 = m by omega, hzero] at hset
      simp at hset

/-! ### What it means for the sender -/

section Sender

open XmitQueue

variable {s : XmitQueue.State} {has : ℕ → Prop} {f : ℕ} {pkt : FackPkt} {x : XmitqElt}

/-- The fragment number at position `k` of the mask. -/
theorem fragnum_of_num (hheader : pkt.fragnum + 1 = BitVec.ofNat 16 f) {k : ℕ}
    (hk : x.num = pkt.fragnum.toNat + 1 + k) : x.fragnum = BitVec.ofNat 16 (f + k) := by
  have hnum : x.fragnum = BitVec.ofNat 16 x.num := by
    rw [XmitqElt.num, BitVec.ofNat_toNat, BitVec.setWidth_eq]
  rw [hnum, hk, BitVec.ofNat_add, BitVec.ofNat_add, BitVec.ofNat_toNat, BitVec.setWidth_eq,
    BitVec.ofNat_add f, ← hheader]
  rfl

/-- What a fack names the receiver has, if less than half of the numbers were given out since. -/
theorem has_of_named (h : Ordered s) (htells : Tells has f pkt) (hlate : s.allocated < f + 2 ^ 15)
    (hx : x ∈ s.xq.queue) (hnamed : Named pkt x) : has x.ptr := by
  have hnum : x.fragnum = BitVec.ofNat 16 x.ptr := h.numbers _ (List.mem_map_of_mem hx)
  have hlt := h.below x.ptr (List.mem_map_of_mem hx)
  by_cases hbefore : x.ptr < f
  · exact htells.before _ hbefore
  · rcases hnamed with hle | ⟨k, hk, hword, hbit⟩
    · -- the header does not get as far as this
      have hshift : Serial.Le (BitVec.ofNat 16 (x.ptr + 1)) (BitVec.ofNat 16 f) := by
        rw [← htells.header, BitVec.ofNat_add x.ptr 1, ← hnum, Serial.Le,
          show x.fragnum + BitVec.ofNat 16 1 - (pkt.fragnum + 1) = x.fragnum - pkt.fragnum from
            add_sub_add_right_eq_sub _ _ _]
        exact hle
      rw [Serial.le_ofNat_iff (by omega) (by omega)] at hshift
      omega
    · have hfew : x.num < 2 ^ 16 := x.fragnum.isLt
      have heq := Serial.ofNat_inj_near (hnum.symm.trans (fragnum_of_num htells.header hk))
        (by omega) (by omega)
      exact heq ▸ htells.bits k hword hbit

/-- Its mask does not get to what is unsent: the last bit stands for a fragment that was sent. -/
theorem fits_of_tells (h : Ordered s) (htells : Tells has f pkt) (hlate : s.allocated < f + 2 ^ 15)
    (hsent : ∀ i, has i → s.sent i = true) (resvs : Resvs) : Fits s (.fack resvs pkt) := by
  refine .inr ⟨htells.body, fun p hp hmet => ?_⟩
  obtain ⟨x, hx, rfl⟩ := List.mem_map.mp hmet
  obtain ⟨hlo, hhi⟩ := num_of_mem_upTo hx
  cases hwords : pkt.numWords with
  | zero =>
    rw [hwords, scannedBits] at hhi
    omega
  | succ m =>
    obtain ⟨hpos, hdiv, hbit⟩ := selackBit_last (htells.lastWord m hwords)
    rw [hwords] at hhi
    have hhas := htells.bits _ (by rw [hdiv, hwords]; exact Nat.lt_succ_self m) hbit
    have hunsent : x.ptr ∈ ptrs (unsentPart s.xq.firstUnsent s.xq.queue) :=
      List.mem_of_head? ((onQueue_eq_head h.onQueue).symm.trans hp)
    have hahead := h.ahead _ (hsent _ hhas) _ hunsent
    have hmem : x ∈ s.xq.queue := by
      have hbehind : x ∈ behind s.xq pkt.fragnum := by
        rw [← met_append_unmet]
        exact List.mem_append_left _ hx
      exact (List.dropWhile_sublist _).subset hbehind
    have hlt := h.below x.ptr (List.mem_map_of_mem hmem)
    have hnum : x.fragnum = BitVec.ofNat 16 x.ptr := h.numbers _ (List.mem_map_of_mem hmem)
    have heq := Serial.ofNat_inj_near (hnum.symm.trans (fragnum_of_num htells.header
      (show x.num = _ + (x.num - (pkt.fragnum.toNat + 1)) by omega))) (by omega) (by omega)
    omega

end Sender

/-! ### The two sides and the network -/

/-- Both sides, and the facks that were ever sent, each with the number of fragments that had been
received in order. -/
structure System where
  sender : XmitQueue.State
  receiver : Receiver := {}
  facks : List (ℕ × FackPkt) := []

/-- A copy of fragment `i` arrives, or the `n`th fack; the others are what a side does by itself. -/
inductive Event
  | sender (e : XmitQueue.Event)
  | copy (env : CallEnv) (i : ℕ) (pkt : Pkt)
  | receiver (e : RecvEvent)
  | fackSent (env : FackEnv) (rqe : Option RecvqElt) (isNocall : Bool) (wire : Wire)
  | fackArrives (resvs : Resvs) (n : ℕ)

/-- The network delivers what was sent, at any time and any number of times, or never. -/
def step (s : System) : Event → Option System
  | .sender (.fack _ _) => none
  | .sender e => (XmitQueue.step s.sender e).map fun t => { s with sender := t }
  | .copy env i pkt =>
    if s.sender.sent i then
      (recvStep s.receiver (.insert env pkt)).map fun r => { s with receiver := r }
    else none
  | .receiver (.insert _ _) => none
  | .receiver e => (recvStep s.receiver e).map fun r => { s with receiver := r }
  | .fackSent env rqe isNocall wire =>
    if s.receiver.state = .orphan then none
    else
      (callXmitFack env s.receiver.rq rqe isNocall).map fun fack =>
        { s with facks := s.facks ++ [(s.receiver.received.length, onWire wire fack)] }
  | .fackArrives resvs n =>
    s.facks[n]?.bind fun p =>
      (XmitQueue.step s.sender (.fack resvs p.2)).map fun t => { s with sender := t }

/-- The counters of the sender have room for a blast.  A copy is what the sender made of the
fragment, and no other fragment that the receiver may take has its number; a fack is not that late
that half of the numbers were given out since. -/
def Timely (stream : List Frag) (s : System) : Event → Prop
  | .sender e => XmitQueue.Fits s.sender e
  | .copy env i pkt =>
    cutsLimit env s.receiver.rq pkt.fragLen = false ∧ pkt.hdr.fragnum = BitVec.ofNat 16 i ∧
      FragmentOf stream pkt.elt i ∧
      ∀ j, s.receiver.received.length ≤ j →
        j < s.receiver.received.length + s.receiver.rq.maxQueueLen.toNat →
        BitVec.ofNat 16 j = BitVec.ofNat 16 i → j = i
  | .fackArrives _ n => ∀ p ∈ s.facks[n]?, s.sender.allocated < p.1 + 2 ^ 15
  | _ => True

/-- Fragment `i` was sent, and the receiver of a call that goes on has it. -/
def Arrived (s : System) (i : ℕ) : Prop :=
  s.sender.sent i = true ∧ (s.receiver.state ≠ .orphan → Has s.receiver i)

/-- The invariant of the runs. -/
structure Agrees (stream : List Frag) (s : System) : Prop where
  ordered : XmitQueue.Ordered s.sender
  handed : InitialSegment (reassemble s.receiver.handed) stream
  view : s.receiver.state ≠ .orphan → ∃ v, StreamInv stream s.receiver v
  loose : LooseOrFreed s.receiver
  sent : s.receiver.state ≠ .orphan → ∀ i, Has s.receiver i → s.sender.sent i = true
  freed : s.receiver.state ≠ .orphan → ∀ i < s.sender.allocated, i ∉ ptrs s.sender.xq.queue →
    Has s.receiver i
  facks : ∀ p ∈ s.facks, Tells (Arrived s) p.1 p.2

variable {s s' : System}

theorem step_sender {e : XmitQueue.Event} (h : ∀ resvs pkt, e ≠ .fack resvs pkt) :
    step s (.sender e) = (XmitQueue.step s.sender e).map fun t => { s with sender := t } := by
  cases e with
  | fack resvs pkt => exact absurd rfl (h resvs pkt)
  | _ => rfl

theorem step_receiver {e : RecvEvent} (h : ∀ env pkt, e ≠ .insert env pkt) :
    step s (.receiver e) = (recvStep s.receiver e).map fun r => { s with receiver := r } := by
  cases e with
  | insert env pkt => exact absurd rfl (h env pkt)
  | _ => rfl

theorem agrees_init (stream : List Frag) (xq : Xmitq) :
    Agrees stream { sender := XmitQueue.reinit xq } := by
  have hinit : StreamInv stream {} ⟨0, 0, []⟩ :=
    ⟨recvqInit_shape, rfl, Nat.zero_le _, fun hc => absurd hc Bool.false_ne_true⟩
  refine ⟨XmitQueue.ordered_reinit xq, hinit.handed, fun _ => ⟨_, hinit⟩, .inr ⟨_, recvqInit_loose⟩,
    fun _ i hi => ?_, fun _ i hi => absurd hi (Nat.not_lt_zero i), fun _ hp => absurd hp
      List.not_mem_nil⟩
  rcases (has_iff hinit).mp hi with hi | hi
  · exact absurd hi (Nat.not_lt_zero i)
  · exact absurd hi List.not_mem_nil

/-- The receiver goes on, and has what it had. -/
theorem Agrees.receiver_step {r : Receiver} (h : Agrees stream s)
    (hhanded : InitialSegment (reassemble r.handed) stream)
    (hview : r.state ≠ .orphan → ∃ v, StreamInv stream r v) (hloose : LooseOrFreed r)
    (hstate : r.state ≠ .orphan → s.receiver.state ≠ .orphan)
    (hkeeps : r.state ≠ .orphan → ∀ i, Has s.receiver i → Has r i)
    (hsent : r.state ≠ .orphan → ∀ i, Has r i → Has s.receiver i ∨ s.sender.sent i = true) :
    Agrees stream { s with receiver := r } where
  ordered := h.ordered
  handed := hhanded
  view := hview
  loose := hloose
  sent := fun hne i hi => (hsent hne i hi).elim (h.sent (hstate hne) i) id
  freed := fun hne i hi hnot => hkeeps hne i (h.freed (hstate hne) i hi hnot)
  facks := fun p hp => (h.facks p hp).mono fun i hi =>
    ⟨hi.1, fun hne => hkeeps hne i (hi.2 (hstate hne))⟩

/-- One event of the sender. -/
theorem agrees_sender {t : XmitQueue.State} (h : Agrees stream s) (hord : XmitQueue.Ordered t)
    (hsent : ∀ p, s.sender.sent p = true → t.sent p = true)
    (hfreed : s.receiver.state ≠ .orphan → ∀ p < t.allocated, p ∉ ptrs t.xq.queue →
      Has s.receiver p) : Agrees stream { s with sender := t } where
  ordered := hord
  handed := h.handed
  view := h.view
  loose := h.loose
  sent := fun hne i hi => hsent i (h.sent hne i hi)
  freed := hfreed
  facks := fun p hp => (h.facks p hp).mono fun i hi => ⟨hsent i hi.1, hi.2⟩

/-- A fack that the receiver sent comes to an end with the sender, unless it is too late. -/
theorem fack_comes_through (h : Agrees stream s) {n : ℕ} {p : ℕ × FackPkt}
    (hp : s.facks[n]? = some p) (hlate : s.sender.allocated < p.1 + 2 ^ 15) (resvs : Resvs) :
    ∃ t, XmitQueue.step s.sender (.fack resvs p.2) = some t ∧
      step s (.fackArrives resvs n) = some { s with sender := t } ∧
      Agrees stream { s with sender := t } := by
  have htells := h.facks p (List.mem_of_getElem? hp)
  have hfits := fits_of_tells h.ordered htells hlate (fun _ hi => hi.1) resvs
  obtain ⟨t, ht, -⟩ := (XmitQueue.step_spec h.ordered.toInv (.fack resvs p.2)).1 hfits
  obtain ⟨hord, hallocated, hsent, hsub, hnamed⟩ := XmitQueue.fack_ordered h.ordered ht
  refine ⟨t, ht, ?_, agrees_sender h hord (fun q hq => hsent ▸ hq) fun hne q hq hnot => ?_⟩
  · rw [step, hp, Option.bind_some, ht]
    rfl
  · -- what leaves the queue now was named, and what had left it before was received before
    by_cases hold : q ∈ ptrs s.sender.xq.queue
    · obtain ⟨x, hx, rfl⟩ := List.mem_map.mp hold
      exact (has_of_named h.ordered htells hlate hx (hnamed x hx hnot)).2 hne
    · exact h.freed hne q (hallocated ▸ hq) hold

/-- A copy arrives. -/
theorem agrees_copy {env : CallEnv} {i : ℕ} {pkt : Pkt} (h : Agrees stream s)
    (htimely : Timely stream s (.copy env i pkt)) (hstep : step s (.copy env i pkt) = some s') :
    Agrees stream s' := by
  obtain ⟨hcut, hfrag, hcopy, hnear⟩ := htimely
  rw [step, Option.ite_none_right_eq_some] at hstep
  obtain ⟨hsent, hstep⟩ := hstep
  obtain ⟨r, hr, rfl⟩ := Option.map_eq_some_iff.mp hstep
  have hloose := loose_step _ _ _ h.loose hr
  rw [recvStep, Option.ite_none_left_eq_some, Option.some_inj] at hr
  obtain ⟨hne, rfl⟩ := hr
  obtain ⟨v, hv⟩ := h.view hne
  -- only the fragment of the copy is new to the receiver, and that one was sent
  have hadm : Admissible stream s.receiver (.insert env pkt) := ⟨hcut, i, hfrag, hcopy, hnear⟩
  rw [hv.awaited] at hnear
  obtain ⟨v', hv', hkeeps, hnew⟩ := receiver_insert hv hadm hfrag hnear
  exact h.receiver_step h.handed (fun _ => ⟨v', hv'⟩) hloose (fun _ => hne) (fun _ => hkeeps)
    fun _ j hj => (hnew j hj).imp_right fun heq => by rw [heq]; exact hsent

/-- The receiver goes on by itself. -/
theorem agrees_receiver {e : RecvEvent} (h : Agrees stream s)
    (hstep : step s (.receiver e) = some s') : Agrees stream s' := by
  cases e with
  | insert env pkt => cases hstep
  | receive status auth =>
    rw [step_receiver (fun _ _ => RecvEvent.noConfusion)] at hstep
    obtain ⟨r, hr, rfl⟩ := Option.map_eq_some_iff.mp hstep
    have hloose := loose_step _ _ _ h.loose hr
    have hhanded : InitialSegment (reassemble r.handed) stream :=
      (streamOk_step s.receiver (.receive status auth) r ⟨h.handed, h.view⟩ trivial hr).1
    cases hr
    refine h.receiver_step hhanded (fun hne => ?_) hloose id (fun hne i hi => ?_)
      fun hne i hi => ?_
    all_goals
      obtain ⟨v, hv⟩ := h.view hne
      obtain ⟨v', hv', hhas⟩ := receiver_receive status auth hv hne
    · exact ⟨v', hv'⟩
    · exact (hhas i).mpr hi
    · exact .inl ((hhas i).mp hi)
  | orphan =>
    rw [step_receiver (fun _ _ => RecvEvent.noConfusion)] at hstep
    obtain ⟨r, hr, rfl⟩ := Option.map_eq_some_iff.mp hstep
    have hloose := loose_step _ _ _ h.loose hr
    cases hr
    exact h.receiver_step h.handed (fun hne => absurd rfl hne) hloose (fun hne => absurd rfl hne)
      (fun hne => absurd rfl hne) fun hne => absurd rfl hne
  | wayValidated =>
    rw [step_receiver (fun _ _ => RecvEvent.noConfusion)] at hstep
    obtain ⟨r, hr, rfl⟩ := Option.map_eq_some_iff.mp hstep
    have hloose := loose_step _ _ _ h.loose hr
    cases hr
    refine h.receiver_step h.handed (fun hne => ?_) hloose id (fun _ _ hi => hi)
      fun _ _ hi => .inl hi
    obtain ⟨v, hv⟩ := h.view hne
    exact ⟨v, hv.shape.wayValidated, hv.received, hv.next_le, hv.complete⟩

/-- The receiver sends a fack. -/
theorem agrees_fackSent {env : FackEnv} {rqe : Option RecvqElt} {isNocall : Bool} {wire : Wire}
    (h : Agrees stream s) (hstep : step s (.fackSent env rqe isNocall wire) = some s') :
    Agrees stream s' := by
  rw [step, Option.ite_none_left_eq_some] at hstep
  obtain ⟨hne, hstep⟩ := hstep
  obtain ⟨fack, hfack, rfl⟩ := Option.map_eq_some_iff.mp hstep
  obtain ⟨v, hv⟩ := h.view hne
  obtain ⟨horphan, -⟩ | ⟨w, hw⟩ := h.loose
  · exact absurd horphan hne
  · -- the fack tells what the receiver has now, and it stays true on the way
    have htells := tells_of_fack hv hw hfack wire
    refine ⟨h.ordered, h.handed, h.view, h.loose, h.sent, h.freed, fun p hp => ?_⟩
    rcases List.mem_append.mp hp with hp | hp
    · exact h.facks p hp
    · obtain rfl := List.mem_singleton.mp hp
      exact htells.mono fun i hi => ⟨h.sent hne i hi, fun _ => hi⟩

/-- One event. -/
theorem agrees_step (s : System) (e : Event) (s' : System) (h : Agrees stream s)
    (htimely : Timely stream s e) (hstep : step s e = some s') : Agrees stream s' := by
  cases e with
  | sender e =>
    by_cases hfack : ∃ resvs pkt, e = .fack resvs pkt
    · obtain ⟨resvs, pkt, rfl⟩ := hfack
      cases hstep
    · have hother : ∀ resvs pkt, e ≠ .fack resvs pkt := fun resvs pkt heq =>
        hfack ⟨resvs, pkt, heq⟩
      obtain ⟨t, ht, hord, -, hsent, hfreed⟩ :=
        XmitQueue.step_ordered h.ordered hother htimely
      rw [step_sender hother, ht] at hstep
      obtain rfl := Option.some_inj.mp hstep
      refine agrees_sender h hord hsent fun hne p hp hnot => ?_
      obtain ⟨hlt, hold⟩ := hfreed p hp hnot
      exact h.freed hne p hlt hold
  | copy env i pkt => exact agrees_copy h htimely hstep
  | receiver e => exact agrees_receiver h hstep
  | fackSent env rqe isNocall wire => exact agrees_fackSent h hstep
  | fackArrives resvs n =>
    obtain ⟨p, hp, -⟩ := Option.bind_eq_some_iff.mp hstep
    obtain ⟨t, -, ht, hagrees⟩ := fack_comes_through h hp (htimely p hp) resvs
    obtain rfl := Option.some_inj.mp (ht.symm.trans hstep)
    exact hagrees

/-! ### The runs -/

theorem agrees_of_exec {xq : Xmitq} {es : List Event}
    (htimely : Along step (Timely stream) { sender := XmitQueue.reinit xq } es)
    (hrun : exec step { sender := XmitQueue.reinit xq } es = some s) : Agrees stream s :=
  exec_invariant agrees_step (agrees_init stream xq) htimely hrun

/-- What a user of the call relies on. -/
structure Reliable (stream : List Frag) (s : System) : Prop where
  handed : InitialSegment (reassemble s.receiver.handed) stream
  /-- What left the transmit queue was received. -/
  freed : s.receiver.state ≠ .orphan → ∀ i < s.sender.allocated, i ∉ ptrs s.sender.xq.queue →
    Has s.receiver i
  /-- Where nothing is left on it, all that was queued was received. -/
  complete : s.receiver.state ≠ .orphan → s.sender.xq.queue = [] →
    s.receiver.received = stream.take s.sender.allocated

/-- Two fragments are queued, one of them is sent, and acknowledged. -/
def firstAcked : List Event :=
  [.sender (.append false), .sender (.append true), .sender (.ready 1), .sender .callXmit,
    .copy {} 0 (copyPkt [[1], [2]] 0), .fackSent {} none false { foreign := true },
    .fackArrives {} 0]

theorem timely_firstAcked : Along step (Timely (senderStream [[1], [2]]))
    { sender := XmitQueue.reinit {} } firstAcked := by
  refine ⟨trivial, fun s₁ h₁ => ⟨trivial, fun s₂ h₂ => ⟨trivial, fun s₃ h₃ => ⟨?_, fun s₄ h₄ =>
    ⟨?_, fun s₅ h₅ => ⟨trivial, fun s₆ h₆ => ⟨?_, fun _ _ => trivial⟩⟩⟩⟩⟩⟩⟩
  all_goals
    obtain rfl := Option.some_inj.mp h₁
    obtain rfl := Option.some_inj.mp h₂
    obtain rfl := Option.some_inj.mp h₃
  · constructor <;> decide
  · obtain rfl := Option.some_inj.mp h₄
    refine ⟨rfl, rfl, copyPkt_fragmentOf (by decide), fun j _ hj heq => ?_⟩
    have hlt : j < 0 + 2 ^ 16 := lt_trans (show j < 0 + 96 from hj) (by decide)
    exact Serial.ofNat_inj_near heq hlt (Nat.add_pos_right j (by decide))
  · obtain rfl := Option.some_inj.mp h₄
    obtain rfl := Option.some_inj.mp h₅
    obtain rfl := Option.some_inj.mp h₆
    rintro p ⟨rfl⟩
    decide

end Transfer

end Dg
