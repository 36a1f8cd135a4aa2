/-
The fack (`rpc__dg_call_xmit_fack` in dgcall.c).

A fack names the last fragment in order and adds a selective acknowledgement: a
mask whose bit `k` stands for the fragment `next_fragnum + k`.  The number of
words in the mask is a difference of 16-bit numbers, the position of a bit in it
is a difference of `int`s.

* `loose_step` — what every run of the receiving side keeps of the queue, also
  after the limit was cut down and the counters wrapped;
* `fackExact_iff` — the fack says exactly what was received if and only if no
  fragment behind the gap has a number that wrapped past `0xffff`; a fragment
  that has is written far outside the mask (`not_fackExact`).
-/
import FreeDce.Dg.RecvqLimit
import FreeDce.Dg.RecvqStream

namespace Dg

open Runs

/-! ### The mask -/

/-- `*(maskp + (shift/32)) |= 1 << (shift%32)`; `none` if the word is not one of
those that were allocated. -/
def setSelack (mask : List (BitVec 32)) (shift : BitVec 32) : Option (List (BitVec 32)) :=
  if shift.toNat / 32 < mask.length then
    some (mask.modify (shift.toNat / 32) (· ||| 1#32 <<< (shift.toNat % 32)))
  else none

/-- `rqe_p->hdrp->fragnum - (unsigned16) rq->next_fragnum`: both are promoted to
`int`, and the result is assigned to an `unsigned32`. -/
def selackShift (fragnum next : BitVec 16) : BitVec 32 :=
  fragnum.setWidth 32 - next.setWidth 32

/-- The loop over the fragments that the fack does not mention explicitly. -/
def markReceived (next : BitVec 16) :
    List RecvqElt → List (BitVec 32) → Option (List (BitVec 32))
  | [], mask => some mask
  | rqe :: rest, mask =>
    match rqe.hdrp with
    | none => none
    | some hdr => (setSelack mask (selackShift hdr.fragnum next)).bind (markReceived next rest)

/-- The fragments behind the gap: the scan starts at `last_inorder->next`, or at
the head if nothing is in order. -/
def Recvq.pastInorder (rq : Recvq) : List RecvqElt := rq.queue.drop rq.inorderPos

/-- The number of mask words, `0` if no selective acknowledgement is needed. -/
def numElements (rq : Recvq) : ℕ :=
  if Serial.Lt rq.nextFragnum rq.highFragnum then
    (rq.highFragnum - rq.nextFragnum).toNat / 32 + 1
  else 0

/-- The mask, `none` if a bit was written outside of it. -/
def selack (rq : Recvq) : Option (List (BitVec 32)) :=
  if Serial.Lt rq.nextFragnum rq.highFragnum then
    markReceived rq.nextFragnum rq.pastInorder (List.replicate (numElements rq) 0)
  else some []

/-! ### The fack -/

def rawFackpktBodySize : ℕ := 20

/-- What a fack depends on besides the receive queue: the call's reservations,
the state of the packet pool, and the sizes that the call negotiated. -/
structure FackEnv where
  isServer : Bool := true
  nResvs : ℕ := 1
  isRationing : Bool := false
  lowOnPkts : Bool := false
  /-- `rq->window_size` -/
  rqWindowSize : BitVec 16 := 32
  /-- `xq->max_frag_size` -/
  xqMaxFragSize : BitVec 32 := 1464

/-- The fields of the packet that are computed from the state of the call. -/
structure Fack where
  isNocall : Bool
  fragnum : BitVec 16
  len : ℕ
  serialNum : BitVec 16
  windowSize : BitVec 16
  selackLen : ℕ
  selack : List (BitVec 32)

/-- The window size to advertise. -/
def fackWindowSize (env : FackEnv) (rq : Recvq) : BitVec 16 :=
  if env.nResvs = 0 ∧ env.isServer then 0
  else if env.isRationing then 1
  else if env.lowOnPkts then 2
  else
    let room : BitVec 32 := rq.maxQueueLen.setWidth 32 - rq.queueLen.setWidth 32
    let kbytes : BitVec 32 :=
      if mustRecvFragSize < rq.highRcvFragSize then (room * env.xqMaxFragSize) >>> 10
      else (room * BitVec.ofNat 32 mustRecvFragSize).sshiftRight 10
    if env.rqWindowSize.toNat < (kbytes.setWidth 16).toNat then env.rqWindowSize
    else kbytes.setWidth 16

/-- The serial number of the packet that induced the fack. -/
def fackSerialNum (rq : Recvq) : Option RecvqElt → BitVec 16
  | none => rq.highSerialNum
  | some rqe =>
    match rqe.hdrp with
    | none => rq.headSerialNum
    | some hdr => hdr.serial

/-- `rpc__dg_call_xmit_fack`.  A fack always has room for one mask word, so `len`
counts only those behind the first. -/
def callXmitFack (env : FackEnv) (rq : Recvq) (rqe : Option RecvqElt) (isNocall : Bool) :
    Option Fack :=
  (selack rq).map fun mask =>
    { isNocall := isNocall
      fragnum := rq.nextFragnum - 1
      len := rawFackpktBodySize + (numElements rq - 1) * 4
      serialNum := fackSerialNum rq rqe
      windowSize := fackWindowSize env rq
      selackLen := numElements rq
      selack := mask }

/-- Bit `k` of a mask of 32-bit words. -/
def maskBit (mask : List (BitVec 32)) (k : ℕ) : Bool := (mask.getD (k / 32) 0).getLsbD (k % 32)

/-- The fragment number is on the queue, behind what is in order. -/
def Recvq.HasPast (rq : Recvq) (fragnum : BitVec 16) : Prop :=
  ∃ rqe ∈ rq.pastInorder, ∃ hdr ∈ rqe.hdrp, hdr.fragnum = fragnum

/-- The fack names the fragment before the awaited one, all its bits are written
into the words it has, and they are set for the fragments behind the gap. -/
def FackExact (env : FackEnv) (rq : Recvq) (rqe : Option RecvqElt) (isNocall : Bool) : Prop :=
  ∃ fack, callXmitFack env rq rqe isNocall = some fack ∧
    fack.fragnum = rq.nextFragnum - 1 ∧ fack.selack.length = fack.selackLen ∧
    ∀ k < 2 ^ 16, maskBit fack.selack k = true ↔ rq.HasPast (rq.nextFragnum + BitVec.ofNat 16 k)

/-- No fragment number behind the gap has wrapped past `0xffff`. -/
def NotWrapped (rq : Recvq) : Prop :=
  ∀ rqe ∈ rq.pastInorder, ∀ hdr ∈ rqe.hdrp, rq.nextFragnum.toNat < hdr.fragnum.toNat

instance (rq : Recvq) : Decidable (NotWrapped rq) :=
  inferInstanceAs (Decidable (∀ rqe ∈ rq.pastInorder, ∀ hdr ∈ rqe.hdrp,
    rq.nextFragnum.toNat < hdr.fragnum.toNat))

/-! ### Setting bits -/

theorem maskBit_replicate (n k : ℕ) : maskBit (List.replicate n 0) k = false := by
  rw [maskBit, List.getD_eq_getElem?_getD, List.getElem?_replicate]
  split_ifs <;> simp

theorem maskBit_modify (mask : List (BitVec 32)) {b k : ℕ} (hb : b / 32 < mask.length) :
    maskBit (mask.modify (b / 32) (· ||| 1#32 <<< (b % 32))) k = (maskBit mask k || b = k) := by
  rw [maskBit, maskBit, List.getD_eq_getElem?_getD, List.getD_eq_getElem?_getD,
    List.getElem?_modify]
  by_cases hword : b / 32 = k / 32
  · -- the word that is changed
    rw [← hword, List.getElem?_eq_getElem hb]
    have hbit : (1#32 <<< (b % 32)).getLsbD (k % 32) = decide (b = k) := by
      have h1 : k % 32 < 32 := Nat.mod_lt _ (by omega)
      rw [BitVec.getLsbD_shiftLeft]
      by_cases hbk : b = k
      · simp [hbk, h1]
      · by_cases hlt : k % 32 < b % 32
        · simp [hlt, hbk]
        · have hne : k % 32 - b % 32 ≠ 0 := by omega
          simp [hlt, hbk, hne, BitVec.getLsbD_one]
    simp [BitVec.getLsbD_or, hbit]
  · have hbk : b ≠ k := fun hc => hword (by rw [hc])
    simp [hword, hbk]

/-- The loop succeeds if and only if every bit falls into the mask, and then sets
just these bits. -/
theorem markReceived_spec {next : BitVec 16} : ∀ {rqes : List RecvqElt} {mask : List (BitVec 32)},
    (∀ rqe ∈ rqes, rqe.hdrp.isSome) →
    ((markReceived next rqes mask).isSome ↔ ∀ rqe ∈ rqes, ∀ hdr ∈ rqe.hdrp,
      (selackShift hdr.fragnum next).toNat / 32 < mask.length) ∧
    ∀ mask', markReceived next rqes mask = some mask' → mask'.length = mask.length ∧
      ∀ k, maskBit mask' k = true ↔ maskBit mask k = true ∨
        ∃ rqe ∈ rqes, ∃ hdr ∈ rqe.hdrp, (selackShift hdr.fragnum next).toNat = k := by
  intro rqes
  induction rqes with
  | nil => simp [markReceived]
  | cons rqe rqes ih =>
    intro mask hsome
    obtain ⟨hdr, hhdr⟩ := Option.isSome_iff_exists.mp (hsome rqe List.mem_cons_self)
    have hrest : ∀ r ∈ rqes, r.hdrp.isSome := fun r hr => hsome r (List.mem_cons_of_mem _ hr)
    set b := (selackShift hdr.fragnum next).toNat with hb
    by_cases hin : b / 32 < mask.length
    · have hset : setSelack mask (selackShift hdr.fragnum next)
          = some (mask.modify (b / 32) (· ||| 1#32 <<< (b % 32))) := by
        rw [setSelack, ← hb, if_pos hin]
      obtain ⟨hiff, hspec⟩ := @ih (mask.modify (b / 32) (· ||| 1#32 <<< (b % 32))) hrest
      simp only [markReceived, hhdr, hset, Option.bind_some]
      constructor
      · rw [hiff]
        simp only [List.length_modify, List.forall_mem_cons, hhdr, Option.mem_some_iff,
          forall_eq', ← hb, hin, true_and]
      · intro mask' hmask'
        obtain ⟨hlen, hbits⟩ := hspec mask' hmask'
        refine ⟨by rw [hlen, List.length_modify], fun k => ?_⟩
        rw [hbits k, maskBit_modify mask hin]
        simp only [Bool.or_eq_true, decide_eq_true_eq, List.exists_mem_cons_iff, hhdr,
          Option.mem_some_iff, exists_eq_left', ← hb, or_assoc]
    · have hset : setSelack mask (selackShift hdr.fragnum next) = none := by
        rw [setSelack, ← hb, if_neg hin]
      simp only [markReceived, hhdr, hset, Option.bind_none]
      refine ⟨iff_of_false (by simp) fun hall => hin ?_, by simp⟩
      exact hall rqe List.mem_cons_self hdr hhdr

/-! ### What runs keep of the queue -/

/-- The index of the highest fragment there was, plus one. -/
def View.high (v : View) : ℕ := (v.beyond.getLast?.elim v.next (· + 1))

/-- What stays of the shape of a queue when the limit is cut down under fragments
that were accepted before: nothing is said about the lengths and the head. -/
structure Loose (rq : Recvq) (v : View) : Prop where
  inorder_le : v.inorder ≤ rq.queue.length
  numbered : List.Forall₂ (Numbered fun _ _ => True) (rq.queue.drop v.inorder) v.beyond
  headers : ∀ rqe ∈ rq.queue.drop v.inorder, rqe.hdrp.isSome
  lastInorder_eq : rq.lastInorder = if v.inorder = 0 then none else some (v.inorder - 1)
  next_eq : rq.nextFragnum = BitVec.ofNat 16 v.next
  high_eq : rq.highFragnum + 1 = BitVec.ofNat 16 v.high
  sorted : v.beyond.Pairwise (· < ·)
  above : ∀ i ∈ v.beyond, v.next < i
  near : ∀ i ∈ v.beyond, i < v.next + 96
  max_le : rq.maxQueueLen.toNat ≤ 96


namespace Loose

variable {rq rq' : Recvq} {env : CallEnv} {pkt : Pkt} {v : View}

theorem inorderPos_eq (h : Loose rq v) : rq.inorderPos = v.inorder := by
  rw [Recvq.inorderPos, h.lastInorder_eq]
  by_cases h0 : v.inorder = 0
  · simp [h0]
  · simp only [h0, if_false]
    omega

theorem pastInorder_eq (h : Loose rq v) : rq.pastInorder = rq.queue.drop v.inorder := by
  rw [Recvq.pastInorder, h.inorderPos_eq]

theorem high_bounds (h : Loose rq v) : v.next ≤ v.high ∧ v.high ≤ v.next + 96 := by
  unfold View.high
  rcases hlast : v.beyond.getLast? with _ | i
  · simp
  · have hmem := List.mem_of_getLast? hlast
    have h1 := h.above i hmem
    have h2 := h.near i hmem
    simp only [Option.elim_some]
    omega

theorem high_of_nil (hnil : v.beyond = []) : v.high = v.next := by
  rw [View.high, hnil]
  rfl

/-- Every fragment behind the gap is at or below the highest. -/
theorem lt_high (h : Loose rq v) {i : ℕ} (hi : i ∈ v.beyond) : i < v.high := by
  obtain ⟨init, last, hsplit⟩ : ∃ init last, v.beyond = init ++ [last] := by
    rcases List.eq_nil_or_concat v.beyond with hnil | ⟨init, last, hsplit⟩
    · rw [hnil] at hi
      simp at hi
    · exact ⟨init, last, by rw [hsplit, List.concat_eq_append]⟩
  have hsorted := h.sorted
  rw [View.high, hsplit, List.getLast?_concat, Option.elim_some]
  rw [hsplit] at hi hsorted
  rcases List.mem_append.mp hi with hi | hi
  · have := (List.pairwise_append.mp hsorted).2.2 i hi last List.mem_cons_self
    omega
  · rw [List.mem_singleton.mp hi]
    omega

/-- The comparison with the highest number so far, in terms of indices. -/
theorem lt_highFragnum (h : Loose rq v) {i : ℕ} (hle : v.next ≤ i) (hnear : i < v.next + 96) :
    Serial.Lt rq.highFragnum (BitVec.ofNat 16 i) ↔ v.high ≤ i := by
  obtain ⟨hlo, hhi⟩ := h.high_bounds
  have hsub : rq.highFragnum - BitVec.ofNat 16 i
      = BitVec.ofNat 16 v.high - BitVec.ofNat 16 (i + 1) := by
    rw [← h.high_eq, ← ofNat_succ]
    abel
  rw [Serial.Lt, hsub, ← Serial.Lt, Serial.lt_ofNat_iff (w := 15) (by omega) (by omega)]
  omega

/-- A queue with the same contents. -/
theorem of_sameQueue (h : Loose rq v) (hsame : SameQueue rq rq')
    (hhigh : rq'.highFragnum = rq.highFragnum) (hmax : rq'.maxQueueLen.toNat ≤ 96) :
    Loose rq' v where
  inorder_le := by rw [hsame.queue]; exact h.inorder_le
  numbered := by rw [hsame.queue]; exact h.numbered
  headers := by rw [hsame.queue]; exact h.headers
  lastInorder_eq := by rw [hsame.lastInorder]; exact h.lastInorder_eq
  next_eq := by rw [hsame.nextFragnum]; exact h.next_eq
  high_eq := by rw [hhigh]; exact h.high_eq
  sorted := h.sorted
  above := h.above
  near := h.near
  max_le := hmax

/-- What the packet does to `high_fragnum`. -/
theorem noteAccepted_highFragnum (rq : Recvq) (pkt : Pkt) :
    (noteAccepted rq pkt).highFragnum =
      if Serial.Lt rq.highFragnum pkt.hdr.fragnum then pkt.hdr.fragnum else rq.highFragnum := by
  unfold noteAccepted
  dsimp only
  split_ifs <;> rfl

theorem high_noteAccepted (h : Loose rq v) {i : ℕ} (hle : v.next ≤ i) (hnear : i < v.next + 96)
    (hfrag : pkt.hdr.fragnum = BitVec.ofNat 16 i) (hsame : rq'.highFragnum = rq.highFragnum) :
    (noteAccepted rq' pkt).highFragnum + 1 = BitVec.ofNat 16 (max v.high (i + 1)) := by
  rw [noteAccepted_highFragnum, hsame, hfrag]
  simp only [h.lt_highFragnum hle hnear]
  by_cases hhigh : v.high ≤ i
  · rw [if_pos hhigh, ofNat_succ, max_eq_right (by omega)]
  · rw [if_neg hhigh, h.high_eq, max_eq_left (by omega)]

/-- The awaited fragment and those it joins up with become in order. -/
theorem insertInorder_loose (h : Loose rq v) (hfrag : pkt.hdr.fragnum = rq.nextFragnum) :
    ∃ v', Loose (noteAccepted (insertInorder rq pkt) pkt) v' := by
  have hmaxq := h.max_le
  obtain ⟨rest, hsplit, hgt⟩ := scanInorder_spec (n := v.next + 1) h.numbered h.headers h.sorted
    (fun i hi => h.above i hi) (fun i hi => by
      have := h.near i hi
      omega)
  rw [← ofNat_succ, ← h.next_eq] at hsplit hgt
  set m := scanInorder (rq.nextFragnum + 1) (rq.queue.drop v.inorder) with hm
  have hlen := h.numbered.length_eq
  have hbeyond : v.beyond.length = m + rest.length := by rw [hsplit]; simp
  have hle := h.inorder_le
  -- behind what is now in order the queue is as it was
  have hdrop : (rq.queue.take v.inorder ++ pkt.elt :: rq.queue.drop v.inorder).drop
      (v.inorder + 1 + m) = (rq.queue.drop v.inorder).drop m := by
    rw [List.drop_append, List.drop_of_length_le (by rw [List.length_take]; omega),
      List.nil_append, List.length_take, show v.inorder + 1 + m - min v.inorder rq.queue.length
        = m + 1 by omega, List.drop_succ_cons]
  have hnum : List.Forall₂ (Numbered fun _ _ => True) ((rq.queue.drop v.inorder).drop m) rest := by
    have hd := List.forall₂_drop m h.numbered
    rwa [hsplit, List.drop_left' (by simp)] at hd
  refine ⟨⟨v.next + 1 + m, v.inorder + 1 + m, rest⟩, ?_⟩
  constructor
  case inorder_le =>
    rw [List.length_drop] at hlen
    rw [noteAccepted_queue, insertInorder, h.inorderPos_eq]
    simp only [List.length_append, List.length_take, List.length_cons, List.length_drop]
    omega
  case numbered => rw [noteAccepted_queue, insertInorder, h.inorderPos_eq, hdrop]; exact hnum
  case headers =>
    rw [noteAccepted_queue, insertInorder, h.inorderPos_eq, hdrop]
    exact fun r hr => h.headers r (List.mem_of_mem_drop hr)
  case lastInorder_eq =>
    have hpos : ¬ v.inorder + 1 + m = 0 := by omega
    rw [noteAccepted_lastInorder, insertInorder, h.inorderPos_eq, if_neg hpos, Option.some_inj]
    dsimp only
    omega
  case next_eq =>
    rw [noteAccepted_nextFragnum, insertInorder, h.inorderPos_eq, ← hm, h.next_eq, ofNat_succ,
      ← BitVec.ofNat_add]
  case high_eq =>
    have hhigh : (insertInorder rq pkt).highFragnum = rq.highFragnum := rfl
    rw [h.high_noteAccepted le_rfl (by omega) (hfrag.trans h.next_eq) hhigh]
    congr 1
    rw [View.high, View.high, hsplit]
    rcases List.eq_nil_or_concat rest with rfl | ⟨init, last, rfl⟩
    · rcases m with _ | m
      · simp
      · simp [List.range'_concat]
        omega
    · have hlast := hgt last (by simp)
      simp
      omega
  case sorted =>
    have hs := h.sorted
    rw [hsplit] at hs
    exact (List.pairwise_append.mp hs).2.1
  case above => exact fun i hi => hgt i hi
  case near =>
    intro i hi
    have := h.near i (by rw [hsplit]; exact List.mem_append_right _ hi)
    dsimp only
    omega
  case max_le => rw [noteAccepted_maxQueueLen]; exact hmaxq

/-- Sorting a fragment in changes the queue and its length only. -/
theorem insertOutOfOrder_keeps (hins : insertOutOfOrder rq pkt = some rq') :
    rq'.lastInorder = rq.lastInorder ∧ rq'.nextFragnum = rq.nextFragnum ∧
      rq'.maxQueueLen = rq.maxQueueLen ∧ rq'.highFragnum = rq.highFragnum := by
  unfold insertOutOfOrder at hins
  split_ifs at hins
  · cases hins; exact ⟨rfl, rfl, rfl, rfl⟩
  · dsimp only at hins
    split_ifs at hins <;> cases hins <;> exact ⟨rfl, rfl, rfl, rfl⟩

/-- An out of order fragment is sorted in behind the gap. -/
theorem insertOutOfOrder_loose {i : ℕ} (h : Loose rq v)
    (hfrag : pkt.hdr.fragnum = BitVec.ofNat 16 i) (hlt : v.next < i) (hnear : i < v.next + 96)
    (hins : insertOutOfOrder rq pkt = some rq') : ∃ v', Loose (noteAccepted rq' pkt) v' := by
  have hle := h.inorder_le
  obtain ⟨low, high, hsplit, hlen, hlow, hhigh⟩ := scanBelow_spec (i := i) h.numbered h.headers
    h.sorted (fun j hj => by
      have h1 := h.above j hj
      have h2 := h.near j hj
      omega)
  rw [← hfrag] at hlen
  set n := scanBelow pkt.hdr.fragnum (rq.queue.drop v.inorder) with hn
  -- the position found by the scan splits the fragments behind the gap
  have hnumbered := h.numbered
  rw [hsplit] at hnumbered
  have htake := List.forall₂_take n hnumbered
  have hdrop := List.forall₂_drop n hnumbered
  rw [List.take_left' hlen] at htake
  rw [List.drop_left' hlen, List.drop_drop] at hdrop
  obtain ⟨hqueue, hne⟩ :
      rq'.queue = rq.queue.take (v.inorder + n) ++ pkt.elt :: rq.queue.drop (v.inorder + n) ∧
      (rq.queue.drop (v.inorder + n)).head?.bind (fun rqe => rqe.hdrp.map PktHdr.fragnum)
        ≠ some pkt.hdr.fragnum := by
    unfold insertOutOfOrder at hins
    by_cases hnil : rq.queue = []
    · rw [if_pos hnil, Option.some_inj] at hins
      rw [← hins, hnil]
      simp
    · rw [if_neg hnil, h.inorderPos_eq] at hins
      dsimp only at hins
      rw [Option.ite_none_left_eq_some, Option.some_inj] at hins
      obtain ⟨hdup, rfl⟩ := hins
      exact ⟨rfl, hdup⟩
  obtain ⟨hlast, hnext, hmaxq, hhighf⟩ := insertOutOfOrder_keeps hins
  -- the fragment is not a duplicate, so what follows it has larger indices
  have hsorted := h.sorted
  rw [hsplit] at hsorted
  have habove : ∀ j ∈ high, i < j := by
    rcases high with _ | ⟨j, high⟩
    · simp
    · obtain ⟨rqe, rqes, hj, -, hcons⟩ := List.forall₂_cons_right_iff.mp hdrop
      have hsome : rqe.hdrp.isSome := by
        apply h.headers rqe
        have hmem : rqe ∈ rq.queue.drop (v.inorder + n) := by
          rw [hcons]
          exact List.mem_cons_self
        rw [← List.drop_drop] at hmem
        exact List.mem_of_mem_drop hmem
      rw [hcons, List.head?_cons, Option.bind_some, hj.fragnum_eq hsome, hfrag] at hne
      have hij : i ≠ j := fun hc => hne (by rw [hc])
      have h1 := hhigh j List.mem_cons_self
      have h2 := (List.pairwise_cons.mp (List.pairwise_append.mp hsorted).2.1).1
      intro k hk
      rcases List.mem_cons.mp hk with rfl | hk
      · omega
      · have := h2 k hk
        omega
  have hpast : rq'.queue.drop v.inorder
      = (rq.queue.drop v.inorder).take n ++ pkt.elt :: rq.queue.drop (v.inorder + n) := by
    rw [hqueue, List.drop_append_of_le_length (by rw [List.length_take]; omega), List.drop_take,
      Nat.add_sub_cancel_left]
  refine ⟨⟨v.next, v.inorder, low ++ i :: high⟩, ?_⟩
  constructor
  case inorder_le =>
    rw [noteAccepted_queue, hqueue]
    simp only [List.length_append, List.length_take, List.length_cons, List.length_drop]
    omega
  case numbered =>
    rw [noteAccepted_queue, hpast]
    refine List.rel_append htake (List.Forall₂.cons ?_ hdrop)
    intro hdr hhdr
    obtain rfl : pkt.hdr = hdr := by simpa [Pkt.elt] using hhdr
    exact ⟨hfrag, trivial⟩
  case headers =>
    rw [noteAccepted_queue, hpast]
    intro rqe hmem
    rcases List.mem_append.mp hmem with hmem | hmem
    · exact h.headers rqe (List.mem_of_mem_take hmem)
    · rcases List.mem_cons.mp hmem with rfl | hmem
      · rfl
      · rw [← List.drop_drop] at hmem
        exact h.headers rqe (List.mem_of_mem_drop hmem)
  case lastInorder_eq => rw [noteAccepted_lastInorder, hlast]; exact h.lastInorder_eq
  case next_eq => rw [noteAccepted_nextFragnum, hnext]; exact h.next_eq
  case high_eq =>
    rw [h.high_noteAccepted hlt.le hnear hfrag hhighf]
    congr 1
    rw [View.high, View.high, hsplit]
    rcases List.eq_nil_or_concat high with rfl | ⟨init, last, rfl⟩
    · rcases List.eq_nil_or_concat low with rfl | ⟨init', last', rfl⟩
      · simp
        omega
      · have := hlow last' (by simp)
        simp
        omega
    · have := habove last (by simp)
      rw [List.concat_eq_append, ← List.cons_append, ← List.append_assoc, ← List.append_assoc,
        List.getLast?_concat, List.getLast?_concat, Option.elim_some]
      omega
  case sorted =>
    obtain ⟨hs1, hs2, -⟩ := List.pairwise_append.mp hsorted
    refine List.pairwise_append.mpr ⟨hs1, List.pairwise_cons.mpr ⟨habove, hs2⟩, ?_⟩
    intro a ha b hb
    have h1 := hlow a ha
    rcases List.mem_cons.mp hb with rfl | hb
    · exact h1
    · have := habove b hb
      omega
  case above =>
    intro j hj
    rcases List.mem_append.mp hj with hj | hj
    · exact h.above j (by rw [hsplit]; exact List.mem_append_left _ hj)
    · rcases List.mem_cons.mp hj with rfl | hj
      · exact hlt
      · exact h.above j (by rw [hsplit]; exact List.mem_append_right _ hj)
  case near =>
    intro j hj
    rcases List.mem_append.mp hj with hj | hj
    · exact h.near j (by rw [hsplit]; exact List.mem_append_left _ hj)
    · rcases List.mem_cons.mp hj with rfl | hj
      · exact hnear
      · exact h.near j (by rw [hsplit]; exact List.mem_append_right _ hj)
  case max_le => rw [noteAccepted_maxQueueLen, hmaxq]; exact h.max_le

/-- Whatever is accepted, the queue stays loosely in shape. -/
theorem enqueue_loose (h : Loose rq v) (henq : enqueue env rq pkt = some rq') :
    ∃ v', Loose (noteAccepted rq' pkt) v' := by
  have hmax := h.max_le
  unfold enqueue at henq
  rw [Option.ite_none_left_eq_some] at henq
  obtain ⟨-, henq⟩ := henq
  by_cases hnext : pkt.hdr.fragnum = rq.nextFragnum
  · rw [if_pos hnext, Option.ite_none_left_eq_some, Option.ite_none_left_eq_some,
      Option.some_inj] at henq
    obtain ⟨-, -, rfl⟩ := henq
    exact h.insertInorder_loose hnext
  · rw [if_neg hnext, Option.ite_none_left_eq_some, Option.ite_none_left_eq_some,
      Option.ite_none_left_eq_some] at henq
    obtain ⟨hbehind, -, hwin, hins⟩ := henq
    obtain ⟨i, hi, hi', hfrag⟩ := Serial.exists_index v.next pkt.hdr.fragnum
    have hne : i ≠ v.next := fun hc => hnext (by rw [← hfrag, hc, h.next_eq])
    have hnear : i < v.next + 2 ^ 15 := by
      by_contra hc
      apply hbehind
      rw [← hfrag, h.next_eq]
      exact Serial.lt_ofNat_of_far (w := 15) (by omega) (by omega)
    -- the second window test alone keeps the fragment near the awaited one
    have hwindow : i < v.next + rq.maxQueueLen.toNat := by
      have hofNat : rq.maxQueueLen = BitVec.ofNat 16 rq.maxQueueLen.toNat := by
        rw [BitVec.ofNat_toNat, BitVec.setWidth_eq]
      simp only [beyondWindow, decide_eq_true_eq, not_or] at hwin
      obtain ⟨-, hwin⟩ := hwin
      rw [h.next_eq, ← hfrag, hofNat, ← BitVec.ofNat_add,
        Serial.le_ofNat_iff (w := 15) (by omega) (by omega)] at hwin
      omega
    exact h.insertOutOfOrder_loose hfrag.symm (by omega) (by omega) hins

theorem noteArrival_loose (env : CallEnv) (pkt : Pkt) (h : Loose rq v) :
    Loose (noteArrival env rq pkt) v := by
  refine h.of_sameQueue (noteArrival_sameQueue env rq pkt) ?_ ?_
  · unfold noteArrival noteFragLen
    dsimp only
    split_ifs <;> rfl
  · rw [noteArrival_maxQueueLen]
    split_ifs
    · have hred := reducedQueueLen_le env
      rw [BitVec.toNat_ofNat]
      exact (Nat.mod_le _ _).trans hred
    · exact h.max_le

/-- Taking a buffer off a queue with something in order. -/
theorem dequeue_loose {rqe : RecvqElt} {rest : List RecvqElt} (h : Loose rq v)
    (hqueue : rq.queue = rqe :: rest) (hpos : 0 < v.inorder) :
    ∃ v', Loose (dequeue rq rqe rest) v' := by
  have hle := h.inorder_le
  obtain ⟨k, hk⟩ : ∃ k, v.inorder = k + 1 := ⟨v.inorder - 1, by omega⟩
  have hdrop : rq.queue.drop v.inorder = rest.drop k := by rw [hqueue, hk, List.drop_succ_cons]
  have hnum := h.numbered
  have hheaders := h.headers
  rw [hdrop] at hnum hheaders
  rw [hqueue, List.length_cons] at hle
  unfold dequeue
  rcases hmore : rqe.moreData with _ | ⟨body, more⟩
  · refine ⟨⟨v.next, k, v.beyond⟩, ?_, hnum, hheaders, ?_, h.next_eq, h.high_eq, h.sorted,
      h.above, h.near, h.max_le⟩
    · dsimp only
      omega
    · simp only [noteHeadSerial, h.lastInorder_eq, hk, Nat.add_sub_cancel]
      rcases k with _ | k <;> rfl
  · -- the rest of the fragment takes the place of its first buffer
    refine ⟨v, ?_, ?_, ?_, h.lastInorder_eq, h.next_eq, h.high_eq, h.sorted, h.above, h.near,
      h.max_le⟩
    · simpa using hle
    · simpa [hk] using hnum
    · simpa [hk] using hheaders

end Loose

/-- A new queue, and one that was freed when its call was found orphaned, aside. -/
def LooseOrFreed (s : Receiver) : Prop :=
  (s.state = .orphan ∧ s.rq.queue = []) ∨ ∃ v, Loose s.rq v

theorem recvqInit_loose : Loose recvqInit ⟨0, 0, []⟩ where
  inorder_le := Nat.zero_le _
  numbered := List.Forall₂.nil
  headers := by simp [recvqInit]
  lastInorder_eq := rfl
  next_eq := rfl
  high_eq := by simp [recvqInit, View.high]
  sorted := List.Pairwise.nil
  above := by simp
  near := by simp
  max_le := by simp [recvqInit, maxRecvqLen]

/-- One event. -/
theorem loose_step (s : Receiver) (e : RecvEvent) (s' : Receiver) (h : LooseOrFreed s)
    (hstep : recvStep s e = some s') : LooseOrFreed s' := by
  cases e with
  | insert env pkt =>
    simp only [recvStep, Option.ite_none_left_eq_some, Option.some_inj] at hstep
    obtain ⟨hstate, rfl⟩ := hstep
    obtain ⟨horphan, -⟩ | ⟨v, hv⟩ := h
    · exact absurd horphan hstate
    · have harrive := hv.noteArrival_loose env pkt
      rcases callRecvqInsert_cases env s.rq pkt with ⟨-, hrq⟩ | ⟨rq', henq, hrq⟩
      · exact .inr ⟨v, by rw [hrq]; exact harrive⟩
      · obtain ⟨v', hv'⟩ := harrive.enqueue_loose henq
        exact .inr ⟨v', by rw [hrq]; exact hv'⟩
  | receive status auth =>
    simp only [recvStep, Option.some_inj] at hstep
    subst hstep
    rcases callReceiveInt_cases status s.state auth s.rq with
      ⟨hrq, -⟩ | ⟨horphan, hrq, -⟩ | ⟨rqe, rest, hstate, hlast, hqueue, hrq, -⟩
    · unfold LooseOrFreed
      rw [hrq]
      exact h
    · exact .inl ⟨horphan, by rw [hrq]; rfl⟩
    · obtain ⟨horphan, -⟩ | ⟨v, hv⟩ := h
      · exact absurd horphan hstate
      · have hpos : 0 < v.inorder := by
          by_contra hc
          rw [hv.lastInorder_eq, if_pos (by omega)] at hlast
          exact hlast rfl
        obtain ⟨v', hv'⟩ := hv.dequeue_loose hqueue hpos
        exact .inr ⟨v', by rw [hrq]; exact hv'⟩
  | orphan =>
    cases hstep
    obtain ⟨-, hnil⟩ | hv := h
    · exact .inl ⟨rfl, hnil⟩
    · exact .inr hv
  | wayValidated =>
    cases hstep
    obtain hfreed | ⟨v, hv⟩ := h
    · exact .inl hfreed
    · exact .inr ⟨v, hv.of_sameQueue ⟨rfl, rfl, rfl, rfl, rfl, rfl, rfl⟩ rfl hv.max_le⟩

theorem looseOrFreed_of_run {es : List RecvEvent} {s : Receiver}
    (hrun : exec recvStep {} es = some s) : LooseOrFreed s :=
  exec_invariant' loose_step (.inr ⟨_, recvqInit_loose⟩) hrun

/-! ### The fack says what was received -/

section Exact

variable {rq : Recvq} {v : View}

/-- The elements behind the gap are the images of the indices in `beyond`. -/
theorem Loose.mem_pastInorder (h : Loose rq v) {rqe : RecvqElt} (hmem : rqe ∈ rq.pastInorder) :
    ∃ hdr, rqe.hdrp = some hdr ∧ ∃ i ∈ v.beyond, hdr.fragnum = BitVec.ofNat 16 i := by
  rw [h.pastInorder_eq] at hmem
  obtain ⟨hdr, hhdr⟩ := Option.isSome_iff_exists.mp (h.headers rqe hmem)
  obtain ⟨k, hk, rfl⟩ := List.getElem_of_mem hmem
  have hnum := h.numbered.get (i := k) hk (by rw [← h.numbered.length_eq]; exact hk)
  exact ⟨hdr, hhdr, _, List.getElem_mem _, (hnum hdr hhdr).1⟩

/-- A number behind the gap that did not wrap: the shift is the distance from the
awaited fragment. -/
theorem selackShift_of_lt {n i : ℕ} (hlt : (BitVec.ofNat 16 n).toNat < (BitVec.ofNat 16 i).toNat)
    (hle : n < i) (hnear : i < n + 96) :
    (selackShift (BitVec.ofNat 16 i) (BitVec.ofNat 16 n)).toNat = i - n := by
  simp only [selackShift, BitVec.toNat_sub, BitVec.toNat_setWidth, BitVec.toNat_ofNat] at hlt ⊢
  omega

/-- A number that did: the difference of the promoted numbers is negative. -/
theorem selackShift_of_wrapped {n i : ℕ}
    (hle : ¬ (BitVec.ofNat 16 n).toNat < (BitVec.ofNat 16 i).toNat)
    (hlt : n < i) (hnear : i < n + 96) :
    2 ^ 31 ≤ (selackShift (BitVec.ofNat 16 i) (BitVec.ofNat 16 n)).toNat := by
  simp only [selackShift, BitVec.toNat_sub, BitVec.toNat_setWidth, BitVec.toNat_ofNat] at hle ⊢
  omega

/-- The mask covers everything up to the highest fragment, and it has at most three words. -/
theorem Loose.numElements_eq (h : Loose rq v) :
    numElements rq = if v.beyond = [] then 0 else (v.high - 1 - v.next) / 32 + 1 := by
  obtain ⟨hlo, hhi⟩ := h.high_bounds
  have hhigh : rq.highFragnum = BitVec.ofNat 16 v.high - 1 := by
    rw [← h.high_eq, BitVec.add_sub_cancel]
  have hlt : Serial.Lt rq.nextFragnum rq.highFragnum ↔ v.next + 1 < v.high := by
    have hsub : rq.nextFragnum - rq.highFragnum
        = BitVec.ofNat 16 (v.next + 1) - BitVec.ofNat 16 v.high := by
      rw [hhigh, h.next_eq, ← ofNat_succ]
      abel
    rw [Serial.Lt, hsub]
    exact Serial.lt_ofNat_iff (w := 15) (by omega) (by omega)
  rw [numElements]
  simp only [hlt]
  by_cases hnil : v.beyond = []
  · have := Loose.high_of_nil hnil
    rw [if_pos hnil, if_neg (by omega)]
  · obtain ⟨i, hi⟩ := List.exists_mem_of_ne_nil _ hnil
    have h1 := h.lt_high hi
    have h2 := h.above i hi
    rw [if_neg hnil, if_pos (by omega), hhigh, h.next_eq]
    obtain ⟨d, hd⟩ : ∃ d, v.high = v.next + 1 + d := ⟨v.high - (v.next + 1), by omega⟩
    have hdist : BitVec.ofNat 16 v.high - 1 - BitVec.ofNat 16 v.next = BitVec.ofNat 16 d := by
      rw [hd, BitVec.ofNat_add, BitVec.ofNat_add]
      have hone : BitVec.ofNat 16 1 = 1 := rfl
      rw [hone]
      abel
    rw [hdist, BitVec.toNat_ofNat, Nat.mod_eq_of_lt (by omega)]
    omega

/-- The selective acknowledgement is built if and only if no number has wrapped. -/
theorem Loose.selack_isSome (h : Loose rq v) : (selack rq).isSome ↔ NotWrapped rq := by
  have hnum := h.numElements_eq
  by_cases hnil : v.beyond = []
  · have hpast : rq.pastInorder = [] := by
      rw [← List.length_eq_zero_iff, h.pastInorder_eq, h.numbered.length_eq, hnil]
      rfl
    rw [selack]
    split_ifs <;> simp [hpast, markReceived, NotWrapped]
  · rw [if_neg hnil] at hnum
    have hlt : Serial.Lt rq.nextFragnum rq.highFragnum := by
      by_contra hc
      rw [numElements, if_neg hc] at hnum
      omega
    rw [selack, if_pos hlt, (markReceived_spec fun r hr => by
      obtain ⟨hdr, hhdr, -⟩ := h.mem_pastInorder hr
      rw [hhdr]
      rfl).1, List.length_replicate, hnum, NotWrapped]
    obtain ⟨hlo, hhi⟩ := h.high_bounds
    constructor
    · intro hin rqe hrqe hdr hhdr
      have hword := hin rqe hrqe hdr hhdr
      obtain ⟨hdr', hhdr', i, hi, hfrag⟩ := h.mem_pastInorder hrqe
      obtain rfl : hdr' = hdr := Option.some_inj.mp (hhdr'.symm.trans hhdr)
      rw [hfrag, h.next_eq] at hword ⊢
      by_contra hwrap
      have := selackShift_of_wrapped hwrap (h.above i hi) (h.near i hi)
      omega
    · intro hnot rqe hrqe hdr hhdr
      have hless := hnot rqe hrqe hdr hhdr
      obtain ⟨hdr', hhdr', i, hi, hfrag⟩ := h.mem_pastInorder hrqe
      obtain rfl : hdr' = hdr := Option.some_inj.mp (hhdr'.symm.trans hhdr)
      have hhi' := h.lt_high hi
      rw [hfrag, h.next_eq] at hless ⊢
      rw [selackShift_of_lt hless (h.above i hi) (h.near i hi)]
      omega

/-- If no number has wrapped, the bits are those of the fragments behind the gap. -/
theorem Loose.maskBit_selack (h : Loose rq v) (hnot : NotWrapped rq) {mask : List (BitVec 32)}
    (hmask : selack rq = some mask) :
    mask.length = numElements rq ∧ ∀ k < 2 ^ 16,
      maskBit mask k = true ↔ rq.HasPast (rq.nextFragnum + BitVec.ofNat 16 k) := by
  have hsome : ∀ rqe ∈ rq.pastInorder, rqe.hdrp.isSome := fun r hr => by
    obtain ⟨hdr, hhdr, -⟩ := h.mem_pastInorder hr
    rw [hhdr]
    rfl
  -- a shift is the position of the fragment counted from the awaited one
  have hshift : ∀ rqe ∈ rq.pastInorder, ∀ hdr ∈ rqe.hdrp, ∀ k < 2 ^ 16,
      (selackShift hdr.fragnum rq.nextFragnum).toNat = k ↔
        hdr.fragnum = rq.nextFragnum + BitVec.ofNat 16 k := by
    intro rqe hrqe hdr hhdr k hk
    have hless := hnot rqe hrqe hdr hhdr
    obtain ⟨hdr', hhdr', i, hi, hfrag⟩ := h.mem_pastInorder hrqe
    obtain rfl : hdr' = hdr := Option.some_inj.mp (hhdr'.symm.trans hhdr)
    have habove := h.above i hi
    have hnear := h.near i hi
    rw [hfrag, h.next_eq] at hless ⊢
    rw [selackShift_of_lt hless habove hnear, ← BitVec.ofNat_add]
    constructor
    · rintro rfl
      rw [Nat.add_sub_cancel' habove.le]
    · intro heq
      have := Serial.ofNat_inj_near heq (by omega) (by omega)
      omega
  rw [selack] at hmask
  by_cases hlt : Serial.Lt rq.nextFragnum rq.highFragnum
  · rw [if_pos hlt] at hmask
    obtain ⟨hlen, hbits⟩ := (markReceived_spec hsome).2 mask hmask
    refine ⟨by rw [hlen, List.length_replicate], fun k hk => ?_⟩
    rw [hbits k, maskBit_replicate]
    simp only [Bool.false_eq_true, false_or, Recvq.HasPast]
    refine exists_congr fun rqe => and_congr_right fun hrqe => exists_congr fun hdr =>
      and_congr_right fun hhdr => hshift rqe hrqe hdr hhdr k hk
  · rw [if_neg hlt, Option.some_inj] at hmask
    have hnum : numElements rq = 0 := by rw [numElements, if_neg hlt]
    have hnil : v.beyond = [] := by
      by_contra hc
      rw [h.numElements_eq, if_neg hc] at hnum
      omega
    refine ⟨by rw [hnum, ← hmask]; rfl, fun k _ => ?_⟩
    rw [← hmask]
    refine iff_of_false (by simp [maskBit]) ?_
    rintro ⟨rqe, hrqe, -⟩
    obtain ⟨-, -, i, hi, -⟩ := h.mem_pastInorder hrqe
    rw [hnil] at hi
    simp at hi

theorem Loose.fackExact (h : Loose rq v) (env : FackEnv) (rqe : Option RecvqElt)
    (isNocall : Bool) : FackExact env rq rqe isNocall ↔ NotWrapped rq := by
  constructor
  · rintro ⟨fack, hfack, -⟩
    rw [callXmitFack, Option.map_eq_some_iff] at hfack
    obtain ⟨mask, hmask, -⟩ := hfack
    exact h.selack_isSome.mp (by rw [hmask]; rfl)
  · intro hnot
    obtain ⟨mask, hmask⟩ := Option.isSome_iff_exists.mp (h.selack_isSome.mpr hnot)
    obtain ⟨hlen, hbits⟩ := h.maskBit_selack hnot hmask
    exact ⟨_, by rw [callXmitFack, hmask]; rfl, rfl, hlen, hbits⟩

end Exact

/-- A call whose queue was freed has nothing behind the gap. -/
theorem fackExact_of_freed {rq : Recvq} (hnil : rq.queue = []) (env : FackEnv)
    (rqe : Option RecvqElt) (isNocall : Bool) : FackExact env rq rqe isNocall := by
  have hpast : rq.pastInorder = [] := by rw [Recvq.pastInorder, hnil, List.drop_nil]
  obtain ⟨mask, hmask, hlen, hbits⟩ : ∃ mask, selack rq = some mask ∧
      mask.length = numElements rq ∧ ∀ k, maskBit mask k = false := by
    rw [selack, hpast, markReceived]
    split_ifs with hlt
    · exact ⟨_, rfl, List.length_replicate, fun k => maskBit_replicate _ k⟩
    · exact ⟨[], rfl, by rw [numElements, if_neg hlt]; rfl, fun k => by simp [maskBit]⟩
  refine ⟨_, by rw [callXmitFack, hmask]; rfl, rfl, hlen, fun k _ => ?_⟩
  rw [hbits k]
  refine iff_of_false Bool.false_ne_true ?_
  rintro ⟨r, hr, -⟩
  rw [hpast] at hr
  simp at hr

/-- **The fack says exactly what was received**, in every state that a run of
arrivals and removals reaches, if and only if no fragment number behind the gap
has wrapped past `0xffff`. -/
theorem fackExact_iff {es : List RecvEvent} {s : Receiver}
    (hrun : exec recvStep {} es = some s) (env : FackEnv) (rqe : Option RecvqElt)
    (isNocall : Bool) : FackExact env s.rq rqe isNocall ↔ NotWrapped s.rq := by
  obtain ⟨-, hnil⟩ | ⟨v, hv⟩ := looseOrFreed_of_run hrun
  · refine iff_of_true (fackExact_of_freed hnil env rqe isNocall) ?_
    intro r hr
    rw [Recvq.pastInorder, hnil, List.drop_nil] at hr
    simp at hr
  · exact hv.fackExact env rqe isNocall

/-- Fragments 0 and 2 have arrived: bit 1 of the mask stands for fragment 2. -/
theorem fackExact_iff_gap :
    exec recvStep {} [.insert {} (fragPkt 0 100), .insert {} (fragPkt 2 100)]
        = some { rq := (callRecvqInsert {} (callRecvqInsert {} recvqInit (fragPkt 0 100)).rq
          (fragPkt 2 100)).rq } ∧
      FackExact {} (callRecvqInsert {} (callRecvqInsert {} recvqInit (fragPkt 0 100)).rq
        (fragPkt 2 100)).rq none false := by
  have hrun : exec recvStep {} [.insert {} (fragPkt 0 100), .insert {} (fragPkt 2 100)]
      = some { rq := (callRecvqInsert {} (callRecvqInsert {} recvqInit (fragPkt 0 100)).rq
        (fragPkt 2 100)).rq } := rfl
  exact ⟨hrun, (fackExact_iff hrun {} none false).mpr (by decide)⟩

/-! ### The wrap -/

/-- After `0xffff` fragments the last one of the number space is awaited, and the
one behind it, which has number 0 again, arrives. -/
theorem wrapped_run : ∃ es s, exec recvStep {} es = some s ∧ ¬ NotWrapped s.rq := by
  obtain ⟨s, hs, hstraight, -⟩ := exec_oneByOne turnStream 65535
  have hlast : s.rq.lastInorder = none := by
    have hpos := hstraight.inorderPos
    unfold Recvq.inorderPos at hpos
    rcases hl : s.rq.lastInorder with _ | k
    · rfl
    · simp [hl] at hpos
  have hsame := noteArrival_sameQueue {} s.rq (fragPkt 65536 0)
  set arrived := noteArrival {} s.rq (fragPkt 65536 0) with harrived
  have hqueue : arrived.queue = [] := hsame.queue.trans hstraight.queue
  have hnext : arrived.nextFragnum = 0xffff := hsame.nextFragnum.trans hstraight.nextFragnum
  have hmax : arrived.maxQueueLen = 96 := by
    rw [harrived, noteArrival_maxQueueLen, if_neg (by simp [cutsLimit, fragPkt]),
      hstraight.maxQueueLen]
  have hwin : beyondWindow arrived 0 = false := by
    have hle : ¬ Serial.Le ((0xffff : BitVec 16) + 96) 0 := by decide
    simpa [beyondWindow, hqueue, hnext, hmax] using hle
  -- the fragment is two ahead of the last one in order and inside the window
  have henq : enqueue {} arrived (fragPkt 65536 0)
      = some { arrived with queue := [(fragPkt 65536 0).elt], headFragnum := 0 } := by
    have hfrag : (fragPkt 65536 0).hdr.fragnum = 0 := rfl
    rw [enqueue, hfrag, hwin, hnext, if_neg (by simp), if_neg (by decide), if_neg (by decide),
      if_neg (by simp), if_neg (by simp), insertOutOfOrder, if_pos hqueue, hfrag, hnext]
  refine ⟨oneByOne turnStream 65535 ++ [.insert {} (fragPkt 65536 0)],
    { s with rq := (callRecvqInsert {} s.rq (fragPkt 65536 0)).rq }, ?_, fun hnot => ?_⟩
  · change exec recvStep (receiverWithLimit 96) _ = _
    rw [exec_append, hs, Option.bind_some, exec, recvStep, if_neg (by rw [hstraight.state]; simp)]
    rfl
  · rcases callRecvqInsert_cases {} s.rq (fragPkt 65536 0) with ⟨hnone, -⟩ | ⟨rq', hsome, hrq⟩
    · rw [← harrived, henq] at hnone
      simp at hnone
    · rw [← harrived, henq, Option.some_inj] at hsome
      have hpast : (noteAccepted rq' (fragPkt 65536 0)).pastInorder = [(fragPkt 65536 0).elt] := by
        rw [Recvq.pastInorder, Recvq.inorderPos, noteAccepted_lastInorder, noteAccepted_queue,
          ← hsome]
        simp only [hsame.lastInorder, hlast]
        rfl
      have hless := hnot (fragPkt 65536 0).elt
        (by simp only [hrq, hpast, List.mem_singleton]) (fragPkt 65536 0).hdr rfl
      simp only [hrq, noteAccepted_nextFragnum, ← hsome, hnext] at hless
      exact absurd hless (by decide)

/-- A fragment whose number has wrapped is written far outside the mask. -/
theorem not_fackExact :
    ¬ ∀ (es : List RecvEvent) (s : Receiver) (env : FackEnv) (rqe : Option RecvqElt)
      (isNocall : Bool), exec recvStep {} es = some s → FackExact env s.rq rqe isNocall := by
  intro h
  obtain ⟨es, s, hrun, hwrapped⟩ := wrapped_run
  have hexact := h es s {} none false hrun
  obtain ⟨-, hnil⟩ | ⟨v, hv⟩ := looseOrFreed_of_run hrun
  · apply hwrapped
    intro r hr
    rw [Recvq.pastInorder, hnil, List.drop_nil] at hr
    simp at hr
  · exact hwrapped ((hv.fackExact {} none false).mp hexact)

end Dg
