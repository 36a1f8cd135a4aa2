/-
What the receiver of a fragmented stream is handed.

The sender's stream is a list of fragments, numbered modulo `2^16`.  Copies of
them arrive in any order and any number.

* `stream_of_admissible` — the buffers handed out are an initial segment of the
  stream, the queue stays sorted, the counters count what is in order, and
  `all_pkts_recvd` means that the whole stream is there;
* `stream_numbers_wrap` — this needs both of its conditions: a copy that is
  delayed until its number comes round again is taken for another fragment, and
  with a limit above 255 the 8-bit counters wrap.
-/
import FreeDce.Dg.RecvqRun

namespace Dg

open Runs

/-! ### Streams -/

/-- A fragment as the sender made it. -/
structure Frag where
  num : BitVec 16
  data : List UInt8
deriving DecidableEq, Repr

def Frag.extend (f : Frag) (bytes : List UInt8) : Frag := { f with data := f.data ++ bytes }

@[simp] theorem Frag.extend_nil (f : Frag) : f.extend [] = f := by simp [Frag.extend]

@[simp] theorem Frag.extend_extend (f : Frag) (a b : List UInt8) :
    (f.extend a).extend b = f.extend (a ++ b) := by simp [Frag.extend]

/-- The stream with the given contents: fragments `0, 1, 2, …` -/
def senderStream (contents : List (List UInt8)) : List Frag :=
  contents.mapIdx fun i bytes => ⟨BitVec.ofNat 16 i, bytes⟩

/-- The buffers a queue element is handed out as. -/
def RecvqElt.ioves (rqe : RecvqElt) : List Iove :=
  recvqIovectorSetup rqe :: rqe.moreData.map fun body => ⟨none, body⟩

def RecvqElt.frag (rqe : RecvqElt) (hdr : PktHdr) : Frag :=
  ⟨hdr.fragnum, (rqe.ioves.map Iove.data).flatten⟩

/-- A buffer with a header starts a new fragment, one without continues the last. -/
def addBuffer (frags : List Frag) (iove : Iove) : List Frag :=
  match iove.hdrp with
  | some hdr => frags ++ [⟨hdr.fragnum, iove.data⟩]
  | none =>
    match frags.getLast? with
    | some f => frags.dropLast ++ [f.extend iove.data]
    | none => frags

/-- The fragments that a list of buffers makes up. -/
def reassemble (ioves : List Iove) : List Frag := ioves.foldl addBuffer []

/-- `frags` is an initial segment of `stream`, whose last fragment may still lack
its tail. -/
def InitialSegment (frags stream : List Frag) : Prop :=
  frags.length ≤ stream.length ∧
    ∀ k f, frags[k]? = some f →
      ∃ rest, stream[k]? = some (f.extend rest) ∧ (k + 1 < frags.length → rest = [])

theorem InitialSegment.refl (a : List Frag) : InitialSegment a a :=
  ⟨le_rfl, fun k f hf => ⟨[], by rw [hf, Frag.extend_nil], fun _ => rfl⟩⟩

theorem InitialSegment.trans {a b c : List Frag} (hab : InitialSegment a b)
    (hbc : InitialSegment b c) : InitialSegment a c := by
  refine ⟨hab.1.trans hbc.1, fun k f hf => ?_⟩
  obtain ⟨r, hr, hr0⟩ := hab.2 k f hf
  obtain ⟨r', hr', hr0'⟩ := hbc.2 k _ hr
  refine ⟨r ++ r', by rw [hr', Frag.extend_extend], fun hk => ?_⟩
  rw [hr0 hk, hr0' (by have := hab.1; omega)]
  rfl

theorem InitialSegment.of_prefix {a b : List Frag} (h : a <+: b) : InitialSegment a b := by
  refine ⟨h.length_le, fun k f hf => ⟨[], ?_, fun _ => rfl⟩⟩
  obtain ⟨t, rfl⟩ := h
  obtain ⟨hk, -⟩ := List.getElem?_eq_some_iff.mp hf
  rw [List.getElem?_append_left hk, hf, Frag.extend_nil]

/-- Another buffer only extends what is there. -/
theorem initialSegment_addBuffer (frags : List Frag) (iove : Iove) :
    InitialSegment frags (addBuffer frags iove) := by
  unfold addBuffer
  rcases iove.hdrp with _ | hdr
  · rcases List.eq_nil_or_concat' frags with rfl | ⟨l, f, rfl⟩
    · exact InitialSegment.refl _
    · simp only [List.getLast?_concat, List.dropLast_concat]
      refine ⟨by simp, fun k g hg => ?_⟩
      rcases lt_trichotomy k l.length with hk | rfl | hk
      · rw [List.getElem?_append_left hk] at hg ⊢
        exact ⟨[], by rw [hg, Frag.extend_nil], fun _ => rfl⟩
      · rw [List.getElem?_concat_length, Option.some_inj] at hg
        refine ⟨iove.data, by rw [List.getElem?_concat_length, hg], fun hc => ?_⟩
        simp at hc
      · rw [List.getElem?_eq_none (by simp; omega)] at hg
        simp at hg
  · exact InitialSegment.of_prefix (List.prefix_append _ _)

theorem initialSegment_reassemble (xs ys : List Iove) :
    InitialSegment (reassemble xs) (reassemble (xs ++ ys)) := by
  induction ys using List.reverseRecOn with
  | nil => rw [List.append_nil]; exact InitialSegment.refl _
  | append_singleton ys y ih =>
    have hstep : reassemble (xs ++ (ys ++ [y])) = addBuffer (reassemble (xs ++ ys)) y := by
      rw [← List.append_assoc, reassemble, List.foldl_append]
      rfl
    rw [hstep]
    exact ih.trans (initialSegment_addBuffer _ _)

/-! ### Reassembling queue elements -/

theorem foldl_addBuffer_continue (acc : List Frag) (f : Frag) (bodies : List (List UInt8)) :
    (bodies.map fun body => (⟨none, body⟩ : Iove)).foldl addBuffer (acc ++ [f])
      = acc ++ [f.extend bodies.flatten] := by
  induction bodies generalizing f with
  | nil => simp
  | cons body bodies ih =>
    have hadd : addBuffer (acc ++ [f]) ⟨none, body⟩ = acc ++ [f.extend body] := by
      simp [addBuffer]
    rw [List.map_cons, List.foldl_cons, hadd, ih, Frag.extend_extend, List.flatten_cons]

/-- A queue element that starts with a header is one fragment. -/
theorem foldl_addBuffer_ioves {rqe : RecvqElt} {hdr : PktHdr} (acc : List Frag)
    (hhdr : rqe.hdrp = some hdr) :
    rqe.ioves.foldl addBuffer acc = acc ++ [rqe.frag hdr] := by
  have hfirst : addBuffer acc (recvqIovectorSetup rqe)
      = acc ++ [⟨hdr.fragnum, (recvqIovectorSetup rqe).data⟩] := by
    have hsetup : (recvqIovectorSetup rqe).hdrp = some hdr := hhdr
    rw [addBuffer, hsetup]
  rw [RecvqElt.ioves, List.foldl_cons, hfirst, foldl_addBuffer_continue]
  simp [RecvqElt.frag, RecvqElt.ioves, Frag.extend, Function.comp_def]

/-! ### The receiver's progress -/

/-- The buffers of the fragments in order. -/
def Recvq.inorderIoves (rq : Recvq) : List Iove :=
  (rq.queue.take rq.inorderPos).flatMap RecvqElt.ioves

/-- The fragments received in order so far, handed out or not. -/
def Receiver.received (s : Receiver) : List Frag :=
  reassemble (s.handed ++ s.rq.inorderIoves)

/-- A copy of fragment `i` of the stream, in whatever buffers it came.  A stream
of more than one fragment has the fragment flag on each of them. -/
structure FragmentOf (stream : List Frag) (rqe : RecvqElt) (i : ℕ) : Prop where
  content : ∀ hdr ∈ rqe.hdrp, stream[i]? = some (rqe.frag hdr)
  last : ∀ hdr ∈ rqe.hdrp, hdr.flagIsSet pfLastFrag = true ↔ i + 1 = stream.length
  frag : ∀ hdr ∈ rqe.hdrp, 1 < stream.length → hdr.flagIsSet pfFrag = true

/-- Arrivals are copies of fragments of the stream, and the limit stays as it is. -/
def Arrives (stream : List Frag) (s : Receiver) : RecvEvent → Prop
  | .insert env pkt =>
    cutsLimit env s.rq pkt.fragLen = false ∧
      ∃ i, pkt.hdr.fragnum = BitVec.ofNat 16 i ∧ FragmentOf stream pkt.elt i
  | _ => True

/-- Moreover, in the window that starts at the awaited fragment no other fragment
has the 16-bit number of the one that arrives. -/
def Admissible (stream : List Frag) (s : Receiver) : RecvEvent → Prop
  | .insert env pkt =>
    cutsLimit env s.rq pkt.fragLen = false ∧
      ∃ i, pkt.hdr.fragnum = BitVec.ofNat 16 i ∧ FragmentOf stream pkt.elt i ∧
        ∀ j, s.received.length ≤ j → j < s.received.length + s.rq.maxQueueLen.toNat →
          BitVec.ofNat 16 j = BitVec.ofNat 16 i → j = i
  | _ => True

/-- What holds of the queue of a call that was not orphaned. -/
structure QueueOk (stream : List Frag) (s : Receiver) : Prop where
  /-- Unless a fragment is half handed out, whole fragments were handed out. -/
  whole : (∀ rqe ∈ s.rq.queue.head?, rqe.hdrp.isSome) → reassemble s.handed <+: stream
  sorted : ((s.rq.queue.filterMap RecvqElt.hdrp).map PktHdr.fragnum).Pairwise Serial.Lt
  inorderLen : s.rq.inorderLen.toNat = s.rq.inorderPos
  inorder_le : s.rq.inorderPos ≤ s.rq.queue.length
  /-- The fragments in order end just before the awaited one. -/
  inorder : ∀ k rqe, k < s.rq.inorderPos → s.rq.queue[k]? = some rqe →
    ∀ hdr ∈ rqe.hdrp, hdr.fragnum + BitVec.ofNat 16 (s.rq.inorderPos - k) = s.rq.nextFragnum
  gap : ∀ rqe ∈ s.rq.queue[s.rq.inorderPos]?, ∀ hdr ∈ rqe.hdrp,
    hdr.fragnum ≠ s.rq.nextFragnum
  complete : s.rq.allPktsRecvd = true →
    reassemble (s.handed ++ s.rq.queue.flatMap RecvqElt.ioves) = stream

/-- The buffers handed out are an initial segment of the stream, and the queue is
in order. -/
structure StreamOk (stream : List Frag) (s : Receiver) : Prop where
  handed : InitialSegment (reassemble s.handed) stream
  queue : s.state ≠ .orphan → QueueOk stream s

/-! ### Progress by insertion and removal -/

variable {rq rq' : Recvq} {stream : List Frag} {pkt : Pkt}

/-- Elements with headers that carry the next indices reassemble to the next
fragments of the stream. -/
theorem foldl_addBuffer_numbered : ∀ {rqes : List RecvqElt} {n k : ℕ},
    List.Forall₂ (Numbered (FragmentOf stream)) rqes (List.range' n k) →
    (∀ rqe ∈ rqes, rqe.hdrp.isSome) → n ≤ stream.length →
    (rqes.flatMap RecvqElt.ioves).foldl addBuffer (stream.take n) = stream.take (n + k) ∧
      n + k ≤ stream.length := by
  intro rqes
  induction rqes with
  | nil =>
    intro n k hnum _ hn
    cases k with
    | zero => exact ⟨rfl, hn⟩
    | succ k => cases hnum
  | cons rqe rqes ih =>
    intro n k hnum hsome hn
    cases k with
    | zero => cases hnum
    | succ k =>
      rw [List.range'_succ] at hnum
      obtain _ | ⟨hhead, hrest⟩ := hnum
      obtain ⟨hdr, hhdr⟩ := Option.isSome_iff_exists.mp (hsome rqe List.mem_cons_self)
      have hcontent := (hhead hdr hhdr).2.content hdr hhdr
      obtain ⟨hlt, -⟩ := List.getElem?_eq_some_iff.mp hcontent
      have htake : stream.take n ++ [rqe.frag hdr] = stream.take (n + 1) := by
        rw [List.take_add_one, hcontent]
        rfl
      obtain ⟨hfold, hle⟩ := ih hrest (fun r hr => hsome r (List.mem_cons_of_mem _ hr)) hlt
      rw [List.flatMap_cons, List.foldl_append, foldl_addBuffer_ioves _ hhdr, htake, hfold]
      exact ⟨by congr 1; omega, by omega⟩

/-- The same, continuing what was received before. -/
theorem reassemble_append_numbered {xs : List Iove} {rqes : List RecvqElt} {n k : ℕ}
    (hxs : reassemble xs = stream.take n) (hn : n ≤ stream.length)
    (hnum : List.Forall₂ (Numbered (FragmentOf stream)) rqes (List.range' n k))
    (hsome : ∀ rqe ∈ rqes, rqe.hdrp.isSome) :
    reassemble (xs ++ rqes.flatMap RecvqElt.ioves) = stream.take (n + k) ∧
      n + k ≤ stream.length := by
  rw [reassemble, List.foldl_append, ← reassemble, hxs]
  exact foldl_addBuffer_numbered hnum hsome hn

/-- Taking a buffer off the queue moves it from the queue to what was handed out. -/
theorem received_dequeue {rqe : RecvqElt} {rest : List RecvqElt} (hqueue : rq.queue = rqe :: rest)
    (hlast : rq.lastInorder ≠ none) :
    recvqIovectorSetup rqe :: (dequeue rq rqe rest).inorderIoves = rq.inorderIoves := by
  obtain ⟨k, hk⟩ := Option.ne_none_iff_exists'.mp hlast
  rw [Recvq.inorderIoves, Recvq.inorderIoves, Recvq.inorderPos, Recvq.inorderPos, hk, hqueue]
  rcases hmore : rqe.moreData with _ | ⟨body, more⟩
  · have hioves : rqe.ioves = [recvqIovectorSetup rqe] := by rw [RecvqElt.ioves, hmore]; rfl
    simp only [dequeue, hmore, noteHeadSerial, hk, List.take_succ_cons, List.flatMap_cons, hioves]
    rcases k with _ | k <;> rfl
  · have hioves : rqe.ioves = recvqIovectorSetup rqe ::
        RecvqElt.ioves { hdrp := none, body := body, moreData := more } := by
      rw [RecvqElt.ioves, hmore]
      rfl
    simp only [dequeue, hmore, noteHeadSerial, hk, List.take_succ_cons, List.flatMap_cons, hioves]
    rfl

/-- The invariant: the queue has a shape, what was received in order is the
stream up to the awaited index, and `all_pkts_recvd` means that nothing is left. -/
structure StreamInv (stream : List Frag) (s : Receiver) (v : View) : Prop where
  shape : Shape (FragmentOf stream) s.rq v
  received : s.received = stream.take v.next
  next_le : v.next ≤ stream.length
  complete : s.rq.allPktsRecvd = true → v.next = stream.length

theorem StreamInv.awaited {s : Receiver} {v : View} (h : StreamInv stream s v) :
    s.received.length = v.next := by
  have hle := h.next_le
  rw [h.received, List.length_take]
  omega

theorem noteAccepted_allPktsRecvd (h : (noteAccepted rq pkt).allPktsRecvd = true) :
    rq.allPktsRecvd = true ∨
      rq.lastInorder ≠ none ∧ (rq.recvingFrags = false ∨ rq.lastInorderIsLast = true) := by
  unfold noteAccepted at h
  dsimp only at h
  split_ifs at h with _ hc hc
  · exact .inr hc
  · exact .inl h
  · exact .inr hc
  · exact .inl h

/-- If the last fragment in order has the last-fragment flag, the stream ends there. -/
theorem next_eq_of_lastInorderIsLast {v : View} (h : Shape (FragmentOf stream) rq v)
    (hlast : rq.lastInorderIsLast = true) : v.next = stream.length := by
  have hle := h.inorder_le
  unfold Recvq.lastInorderIsLast at hlast
  rw [h.lastInorder_eq] at hlast
  by_cases h0 : v.inorder = 0
  · simp [h0] at hlast
  · simp only [h0, if_false] at hlast
    rcases hget : rq.queue[v.inorder - 1]? with _ | rqe
    · simp [hget] at hlast
    · rcases hhdr : rqe.hdrp with _ | hdr
      · simp [hget, hhdr] at hlast
      · simp only [hget, hhdr, Option.bind_some] at hlast
        obtain ⟨i, hi, hnum⟩ := h.numbered_get hget
        rw [View.indices, List.getElem?_append_left (by simp; omega),
          List.getElem?_range' (by omega), Option.some_inj] at hi
        unfold View.first at hi
        have := ((hnum hdr hhdr).2.last hdr hhdr).mp hlast
        omega

/-- What a larger view adds to the buffers in order is numbered consecutively. -/
theorem inorderIoves_grow {P : RecvqElt → ℕ → Prop} {v v' : View} (h : Shape P rq v)
    (h' : Shape P rq' v') (hfirst : v'.first = v.first) (hnext : v.next ≤ v'.next)
    (htake : rq'.queue.take v.inorder = rq.queue.take v.inorder) :
    let new := (rq'.queue.take v'.inorder).drop v.inorder
    rq'.inorderIoves = rq.inorderIoves ++ new.flatMap RecvqElt.ioves ∧
      List.Forall₂ (Numbered P) new (List.range' v.next (v'.next - v.next)) := by
  have hle := h.inorder_le
  have hle' := h'.inorder_le
  unfold View.first at hfirst
  constructor
  · have hsplit := List.take_append_drop v.inorder (rq'.queue.take v'.inorder)
    rw [List.take_take, Nat.min_eq_left (by omega), htake] at hsplit
    rw [Recvq.inorderIoves, h'.inorderPos_eq, Recvq.inorderIoves, h.inorderPos_eq,
      ← List.flatMap_append, hsplit]
  · have hdrop := List.forall₂_drop v.inorder h'.numbered_take
    rw [List.drop_range'] at hdrop
    unfold View.first at hdrop
    rw [show v'.next - v'.inorder + v.inorder * 1 = v.next by omega,
      show v'.inorder - v.inorder = v'.next - v.next by omega] at hdrop
    exact hdrop

/-- One arrival. -/
theorem streamInv_insert {s : Receiver} {v : View} {env : CallEnv}
    (h : StreamInv stream s v) (hadm : Admissible stream s (.insert env pkt)) :
    ∃ v', StreamInv stream { s with rq := (callRecvqInsert env s.rq pkt).rq } v' := by
  obtain ⟨hcut, i, hfrag, hcopy, hnear⟩ := hadm
  rw [h.awaited] at hnear
  have hcut' : ¬ cutsLimit env s.rq pkt.fragLen = true := by rw [hcut]; simp
  have hshape := noteArrival_shape env pkt h.shape (fun hc => absurd hc hcut')
  have hsame := noteArrival_sameQueue env s.rq pkt
  have hmax := noteArrival_maxQueueLen env s.rq pkt
  rw [if_neg hcut'] at hmax
  have hioves : (noteArrival env s.rq pkt).inorderIoves = s.rq.inorderIoves := by
    rw [Recvq.inorderIoves, Recvq.inorderIoves, Recvq.inorderPos, Recvq.inorderPos, hsame.queue,
      hsame.lastInorder]
  rcases callRecvqInsert_cases env s.rq pkt with ⟨-, hrq⟩ | ⟨rq', henq, hrq⟩
  · refine ⟨v, by rw [hrq]; exact hshape, ?_, h.next_le, ?_⟩
    · rw [Receiver.received, hrq, hioves]
      exact h.received
    · rw [hrq, hsame.allPktsRecvd]
      exact h.complete
  · obtain ⟨v', hv', hfirst, hnext, htake, hheaders⟩ := enqueue_shape hshape
      (fun j hj hlo hhi => by
        have hij := hnear j hlo (by rw [← hmax]; exact hhi) (by rw [← hj, hfrag])
        rw [hij]
        exact hcopy) henq
    obtain ⟨hgrow, hnum⟩ := inorderIoves_grow hshape hv' hfirst hnext (by simpa using htake)
    obtain ⟨hreceived, hle⟩ := reassemble_append_numbered h.received h.next_le hnum (by
      intro rqe hmem
      apply hheaders
      rw [noteAccepted_queue, List.drop_take] at hmem
      exact List.mem_of_mem_take hmem)
    rw [hioves] at hgrow
    rw [show v.next + (v'.next - v.next) = v'.next by omega] at hreceived hle
    refine ⟨v', by rw [hrq]; exact hv', ?_, hle, ?_⟩
    · rw [Receiver.received, hrq, hgrow, ← List.append_assoc]
      exact hreceived
    · intro hall
      rw [hrq] at hall
      obtain ⟨-, hfrags, hallPkts⟩ := enqueue_frame henq
      rcases noteAccepted_allPktsRecvd hall with hold | ⟨hlast, hsingle | hflag⟩
      · -- the stream was complete before
        rw [hallPkts, hsame.allPktsRecvd] at hold
        have := h.complete hold
        omega
      · -- the stream is not fragmented, so its only fragment is there
        rw [hfrags, noteArrival_recvingFrags, Bool.or_eq_false_iff] at hsingle
        have hone : ¬ 1 < stream.length := fun hc => by
          rw [hcopy.frag pkt.hdr rfl hc] at hsingle
          exact absurd hsingle.2 (by simp)
        have hpos := mt hv'.lastInorder_eq_none.mpr (by rw [noteAccepted_lastInorder]; exact hlast)
        have := hv'.inorder_le
        omega
      · apply next_eq_of_lastInorderIsLast hv'
        unfold Recvq.lastInorderIsLast at hflag ⊢
        rw [noteAccepted_lastInorder, noteAccepted_queue]
        exact hflag

theorem dequeue_allPktsRecvd (rq : Recvq) (rqe : RecvqElt) (rest : List RecvqElt) :
    (dequeue rq rqe rest).allPktsRecvd = rq.allPktsRecvd := by
  unfold dequeue
  rcases rqe.moreData with _ | ⟨body, more⟩ <;> rfl

/-- One pass through the receive routine. -/
theorem streamInv_receive (status : Status) (auth : AuthCheck) {s : Receiver} {v : View}
    (h : StreamInv stream s v) (hstate : s.state ≠ .orphan) :
    ∃ v', StreamInv stream
      { s with
        rq := (callReceiveInt status s.state auth s.rq).1
        handed := s.handed ++ (callReceiveInt status s.state auth s.rq).2.taken } v' := by
  obtain ⟨v', hv', hnext⟩ := receive_shape status auth h.shape hstate
  refine ⟨v', hv', ?_, by rw [hnext]; exact h.next_le, ?_⟩
  · rw [hnext, ← h.received, Receiver.received, Receiver.received]
    rcases callReceiveInt_cases status s.state auth s.rq with
      ⟨hrq, htaken⟩ | ⟨horphan, -⟩ | ⟨rqe, rest, -, hlast, hqueue, hrq, htaken⟩
    · rw [hrq, htaken, List.append_nil]
    · exact absurd horphan hstate
    · rw [hrq, htaken, ← received_dequeue hqueue hlast, List.append_assoc]
      rfl
  · rw [hnext]
    intro hall
    apply h.complete
    rcases callReceiveInt_cases status s.state auth s.rq with
      ⟨hrq, -⟩ | ⟨horphan, -⟩ | ⟨rqe, rest, -, -, -, hrq, -⟩
    · rwa [hrq] at hall
    · exact absurd horphan hstate
    · rwa [hrq, dequeue_allPktsRecvd] at hall

/-! ### What the invariant says -/

theorem StreamInv.handed {s : Receiver} {v : View} (h : StreamInv stream s v) :
    InitialSegment (reassemble s.handed) stream := by
  have hseg := initialSegment_reassemble s.handed s.rq.inorderIoves
  rw [← Receiver.received, h.received] at hseg
  exact hseg.trans (InitialSegment.of_prefix (List.take_prefix _ _))

/-- Whole fragments only add fragments. -/
theorem prefix_foldl_addBuffer {rqes : List RecvqElt} (hsome : ∀ rqe ∈ rqes, rqe.hdrp.isSome)
    (acc : List Frag) : acc <+: (rqes.flatMap RecvqElt.ioves).foldl addBuffer acc := by
  induction rqes generalizing acc with
  | nil => exact List.prefix_refl _
  | cons rqe rqes ih =>
    obtain ⟨hdr, hhdr⟩ := Option.isSome_iff_exists.mp (hsome rqe List.mem_cons_self)
    rw [List.flatMap_cons, List.foldl_append, foldl_addBuffer_ioves _ hhdr]
    exact (List.prefix_append _ _).trans
      (ih (fun r hr => hsome r (List.mem_cons_of_mem _ hr)) _)

/-- Increasing indices that are close together have increasing images. -/
theorem pairwise_lt_of_numbered {P : RecvqElt → ℕ → Prop} (lo : ℕ) :
    ∀ {rqes : List RecvqElt} {is : List ℕ}, List.Forall₂ (Numbered P) rqes is →
    is.Pairwise (· < ·) → (∀ i ∈ is, lo ≤ i ∧ i < lo + 2 ^ 15) →
    ((rqes.filterMap RecvqElt.hdrp).map PktHdr.fragnum).Pairwise Serial.Lt ∧
      ∀ n ∈ (rqes.filterMap RecvqElt.hdrp).map PktHdr.fragnum, ∃ i ∈ is, n = BitVec.ofNat 16 i := by
  intro rqes
  induction rqes with
  | nil => intro is _ _ _; simp
  | cons rqe rqes ih =>
    intro is hnum hsorted hnear
    obtain _ | ⟨hhead, hrest⟩ := hnum
    rename_i i is
    obtain ⟨hlt, hsorted⟩ := List.pairwise_cons.mp hsorted
    obtain ⟨hpair, himage⟩ := ih hrest hsorted fun j hj => hnear j (List.mem_cons_of_mem _ hj)
    have himage' : ∀ n ∈ (rqes.filterMap RecvqElt.hdrp).map PktHdr.fragnum,
        ∃ j ∈ i :: is, n = BitVec.ofNat 16 j := fun n hn => by
      obtain ⟨j, hj, hnj⟩ := himage n hn
      exact ⟨j, List.mem_cons_of_mem _ hj, hnj⟩
    rcases hhdr : rqe.hdrp with _ | hdr
    · rw [List.filterMap_cons_none hhdr]
      exact ⟨hpair, himage'⟩
    · rw [List.filterMap_cons_some hhdr, List.map_cons, List.pairwise_cons]
      have hfrag := (hhead hdr hhdr).1
      refine ⟨⟨fun n hn => ?_, hpair⟩, fun n hn => ?_⟩
      · obtain ⟨j, hj, rfl⟩ := himage n hn
        have hij := hlt j hj
        have hi := hnear i List.mem_cons_self
        have hj' := hnear j (List.mem_cons_of_mem _ hj)
        rw [hfrag]
        exact (Serial.lt_ofNat_iff (w := 15) (by omega) (by omega)).mpr hij
      · rcases List.mem_cons.mp hn with rfl | hn
        · exact ⟨i, List.mem_cons_self, hfrag⟩
        · exact himage' n hn

theorem Shape.indices_sorted {P : RecvqElt → ℕ → Prop} {v : View} (h : Shape P rq v) :
    v.indices.Pairwise (· < ·) := by
  have hle := h.inorder_le
  refine List.pairwise_append.mpr ⟨List.pairwise_lt_range', h.sorted, fun i hi j hj => ?_⟩
  have h1 := List.mem_range'_1.mp hi
  have h2 := h.above j hj
  unfold View.first at h1
  omega

theorem Shape.indices_window {P : RecvqElt → ℕ → Prop} {v : View} (h : Shape P rq v) :
    ∀ i ∈ v.indices, v.first ≤ i ∧ i < v.first + rq.maxQueueLen.toNat := by
  intro i hi
  have hle := h.inorder_le
  have hmax := h.inorder_le_max
  rcases List.mem_append.mp hi with hi | hi
  · have h1 := List.mem_range'_1.mp hi
    omega
  · have h1 := h.above i hi
    have h2 := h.window i hi
    unfold View.first at h2 ⊢
    omega

theorem StreamInv.queueOk {s : Receiver} {v : View} (h : StreamInv stream s v) :
    QueueOk stream s where
  whole hhead := by
    have hheaders : ∀ rqe ∈ s.rq.queue.take s.rq.inorderPos, rqe.hdrp.isSome := by
      intro rqe hmem
      have hmem := List.mem_of_mem_take hmem
      rcases hqueue : s.rq.queue with _ | ⟨head, rest⟩
      · simp [hqueue] at hmem
      · rw [hqueue] at hmem hhead
        have htail := h.shape.headers
        rw [hqueue] at htail
        rcases List.mem_cons.mp hmem with rfl | hmem
        · exact hhead rqe rfl
        · exact htail rqe hmem
    have hprefix := prefix_foldl_addBuffer hheaders (reassemble s.handed)
    have hreceived := h.received
    rw [Receiver.received, reassemble, List.foldl_append] at hreceived
    rw [← Recvq.inorderIoves, reassemble, hreceived] at hprefix
    exact hprefix.trans (List.take_prefix _ _)
  sorted := by
    have hmax := h.shape.max_le
    refine (pairwise_lt_of_numbered v.first h.shape.numbered h.shape.indices_sorted
      fun i hi => ?_).1
    have := h.shape.indices_window i hi
    omega
  inorderLen := h.shape.inorderLen_toNat.trans h.shape.inorderPos_eq.symm
  inorder_le := by
    rw [h.shape.inorderPos_eq, h.shape.length_queue, View.length_indices]
    omega
  inorder k rqe hk hget hdr hhdr := by
    have hle := h.shape.inorder_le
    rw [h.shape.inorderPos_eq] at hk ⊢
    obtain ⟨i, hi, hnum⟩ := h.shape.numbered_get hget
    rw [View.indices, List.getElem?_append_left (by simpa using hk),
      List.getElem?_range' hk, Option.some_inj] at hi
    rw [(hnum hdr hhdr).1, ← BitVec.ofNat_add, h.shape.next_eq]
    congr 1
    unfold View.first at hi
    omega
  gap rqe hget hdr hhdr := by
    have hle := h.shape.inorder_le
    have hmax := h.shape.max_le
    rw [h.shape.inorderPos_eq] at hget
    obtain ⟨i, hi, hnum⟩ := h.shape.numbered_get hget
    rw [View.indices, List.getElem?_append_right (by simp)] at hi
    have hmem := List.mem_of_getElem? hi
    have habove := h.shape.above i hmem
    have hwin := h.shape.window i hmem
    unfold View.first at hwin
    rw [(hnum hdr hhdr).1, h.shape.next_eq]
    intro hc
    have := Serial.ofNat_inj_near hc (by omega) (by omega)
    omega
  complete hall := by
    have hnext := h.complete hall
    -- a fragment behind the gap would lie beyond the end of the stream
    have hbeyond : v.beyond = [] := by
      rcases hb : v.beyond with _ | ⟨i, rest⟩
      · rfl
      · have hnum := h.shape.numbered_drop
        rw [hb] at hnum
        obtain ⟨rqe, rqes, hrqe, -, hdrop⟩ := List.forall₂_cons_right_iff.mp hnum
        obtain ⟨hdr, hhdr⟩ := Option.isSome_iff_exists.mp
          (h.shape.headers_drop rqe (by rw [hdrop]; exact List.mem_cons_self))
        obtain ⟨hlt, -⟩ := List.getElem?_eq_some_iff.mp ((hrqe hdr hhdr).2.content hdr hhdr)
        have := h.shape.above i (by rw [hb]; exact List.mem_cons_self)
        omega
    have htake : s.rq.queue.take s.rq.inorderPos = s.rq.queue := by
      apply List.take_of_length_le
      rw [h.shape.inorderPos_eq, h.shape.length_queue, View.length_indices, hbeyond]
      exact le_rfl
    have hreceived := h.received
    rw [Receiver.received, Recvq.inorderIoves, htake, hnext, List.take_length] at hreceived
    exact hreceived

/-! ### Runs -/

/-- A call whose queue may hold `limit` fragments. -/
def receiverWithLimit (limit : BitVec 16) : Receiver :=
  { rq := { recvqInit with maxQueueLen := limit } }

/-- One event. -/
theorem streamOk_step (s : Receiver) (e : RecvEvent) (s' : Receiver)
    (h : InitialSegment (reassemble s.handed) stream ∧
      (s.state ≠ .orphan → ∃ v, StreamInv stream s v))
    (hadm : Admissible stream s e) (hstep : recvStep s e = some s') :
    InitialSegment (reassemble s'.handed) stream ∧
      (s'.state ≠ .orphan → ∃ v, StreamInv stream s' v) := by
  cases e with
  | insert env pkt =>
    simp only [recvStep, Option.ite_none_left_eq_some, Option.some_inj] at hstep
    obtain ⟨hstate, rfl⟩ := hstep
    obtain ⟨v, hv⟩ := h.2 hstate
    exact ⟨h.1, fun _ => streamInv_insert hv hadm⟩
  | receive status auth =>
    simp only [recvStep, Option.some_inj] at hstep
    subst hstep
    by_cases hstate : s.state = .orphan
    · refine ⟨?_, fun hc => absurd hstate hc⟩
      rcases callReceiveInt_cases status s.state auth s.rq with
        ⟨-, htaken⟩ | ⟨-, -, htaken⟩ | ⟨rqe, rest, hne, -⟩
      · rw [htaken, List.append_nil]
        exact h.1
      · rw [htaken, List.append_nil]
        exact h.1
      · exact absurd hstate hne
    · obtain ⟨v, hv⟩ := h.2 hstate
      obtain ⟨v', hv'⟩ := streamInv_receive status auth hv hstate
      exact ⟨hv'.handed, fun _ => ⟨v', hv'⟩⟩
  | orphan =>
    cases hstep
    exact ⟨h.1, fun hc => absurd rfl hc⟩
  | wayValidated =>
    cases hstep
    refine ⟨h.1, fun hstate => ?_⟩
    obtain ⟨v, hv⟩ := h.2 hstate
    exact ⟨v, hv.shape.wayValidated, hv.received, hv.next_le, hv.complete⟩

/-- The copy of fragment `i` that fits into one buffer. -/
def copyPkt (contents : List (List UInt8)) (i : ℕ) : Pkt where
  hdr :=
    { flags := if i + 1 = contents.length then pfFrag ||| pfLastFrag else pfFrag
      fragnum := BitVec.ofNat 16 i
      len := (contents.getD i []).length }
  body := contents.getD i []

theorem copyPkt_fragmentOf {contents : List (List UInt8)} {i : ℕ} (hi : i < contents.length) :
    FragmentOf (senderStream contents) (copyPkt contents i).elt i := by
  constructor
  · rintro hdr ⟨⟩
    rw [senderStream, List.getElem?_mapIdx, List.getElem?_eq_getElem hi]
    simp [RecvqElt.frag, RecvqElt.ioves, recvqIovectorSetup, Pkt.elt, copyPkt, List.getD,
      List.getElem?_eq_getElem hi]
  · rintro hdr ⟨⟩
    have hlen : (senderStream contents).length = contents.length := List.length_mapIdx
    rw [hlen]
    by_cases hlast : i + 1 = contents.length <;>
      simp [copyPkt, hlast, PktHdr.flagIsSet, pfFrag, pfLastFrag]
  · rintro hdr ⟨⟩ -
    by_cases hlast : i + 1 = contents.length <;>
      simp [copyPkt, hlast, PktHdr.flagIsSet, pfFrag, pfLastFrag]

/-- A copy arrives in any state: its length never makes the limit change. -/
theorem arrives_copyPkt {contents : List (List UInt8)} {i : ℕ} (hi : i < contents.length)
    (env : CallEnv) (s : Receiver) :
    Arrives (senderStream contents) s (.insert env (copyPkt contents i)) :=
  ⟨by simp [cutsLimit, copyPkt], i, rfl, copyPkt_fragmentOf hi⟩

/-- Everything queued is in order, the counters aside. -/
structure Straight (limit : BitVec 16) (s : Receiver) (n : ℕ) (elts : List RecvqElt) :
    Prop where
  state : s.state = .recv
  queue : s.rq.queue = elts
  inorderPos : s.rq.inorderPos = elts.length
  nextFragnum : s.rq.nextFragnum = BitVec.ofNat 16 n
  maxQueueLen : s.rq.maxQueueLen = limit
  queueLen : s.rq.queueLen = BitVec.ofNat 8 elts.length
  inorderLen : s.rq.inorderLen = BitVec.ofNat 8 elts.length

theorem straight_start (limit : BitVec 16) : Straight limit (receiverWithLimit limit) 0 [] :=
  ⟨rfl, rfl, rfl, rfl, rfl, rfl, rfl⟩

/-- The awaited fragment is accepted as long as the queue is not full. -/
theorem straight_insert (pkt : Pkt) {limit : BitVec 16} {s : Receiver} {n : ℕ} {elts : List RecvqElt}
    (h : Straight limit s n elts) (hnext : pkt.hdr.fragnum = BitVec.ofNat 16 n)
    (hlen : pkt.fragLen = 0) (hroom : elts.length % 256 ≠ limit.toNat) :
    ∃ s', recvStep s (.insert {} pkt) = some s' ∧ s'.handed = s.handed ∧
      Straight limit s' (n + 1) (elts ++ [pkt.elt]) := by
  have hsame := noteArrival_sameQueue {} s.rq pkt
  have hmax : (noteArrival {} s.rq pkt).maxQueueLen = limit := by
    rw [noteArrival_maxQueueLen, if_neg (by simp [cutsLimit, hlen]), h.maxQueueLen]
  have hpos : (noteArrival {} s.rq pkt).inorderPos = elts.length := by
    rw [Recvq.inorderPos, hsame.lastInorder, ← Recvq.inorderPos, h.inorderPos]
  have henq : enqueue {} (noteArrival {} s.rq pkt) pkt
      = some (insertInorder (noteArrival {} s.rq pkt) pkt) := by
    have hfull : ¬ (noteArrival {} s.rq pkt).queueLen.toNat
        = (noteArrival {} s.rq pkt).maxQueueLen.toNat := by
      rw [hsame.queueLen, hmax, h.queueLen, BitVec.toNat_ofNat]
      exact hroom
    rw [enqueue, if_neg (by simp), if_pos (by rw [hnext, hsame.nextFragnum, h.nextFragnum]),
      if_neg hfull, if_neg (by simp)]
  rcases callRecvqInsert_cases {} s.rq pkt with ⟨hnone, -⟩ | ⟨rq', hsome, hrq⟩
  · simp [henq] at hnone
  · obtain rfl : insertInorder (noteArrival {} s.rq pkt) pkt = rq' := by
      simpa [henq] using hsome
    refine ⟨{ s with rq := (callRecvqInsert {} s.rq pkt).rq }, ?_, rfl, ?_⟩
    · rw [recvStep, if_neg (by rw [h.state]; simp)]
    · have hdrop : (noteArrival {} s.rq pkt).queue.drop elts.length = [] := by
        rw [hsame.queue, h.queue, List.drop_length]
      have htake : (noteArrival {} s.rq pkt).queue.take elts.length = elts := by
        rw [hsame.queue, h.queue, List.take_length]
      rw [hrq]
      constructor
      · exact h.state
      · simp only [noteAccepted_queue, insertInorder, hpos, hdrop, htake]
      · simp only [Recvq.inorderPos, noteAccepted_lastInorder, insertInorder]
        rw [← Recvq.inorderPos, hpos, hdrop]
        simp [scanInorder]
      · simp only [noteAccepted_nextFragnum, insertInorder, hpos, hdrop, scanInorder,
          hsame.nextFragnum, h.nextFragnum, ofNat_succ]
        exact BitVec.add_zero _
      · simp only [noteAccepted_maxQueueLen, insertInorder, hmax]
      · simp only [noteAccepted_queueLen, insertInorder, hsame.queueLen, h.queueLen, ofNat_succ,
          List.length_append, List.length_singleton]
      · simp only [noteAccepted_inorderLen, insertInorder, hpos, hdrop, scanInorder,
          hsame.inorderLen, h.inorderLen, ofNat_succ, List.length_append, List.length_singleton]
        exact BitVec.add_zero _

/-- The head is handed out. -/
theorem straight_receive {limit : BitVec 16} {s : Receiver} {n : ℕ} {rqe : RecvqElt}
    {elts : List RecvqElt} (h : Straight limit s n (rqe :: elts)) (hmore : rqe.moreData = []) :
    ∃ s', recvStep s (.receive .ok .passed) = some s' ∧ s'.handed = s.handed ++ rqe.ioves ∧
      Straight limit s' n elts := by
  have hlast : s.rq.lastInorder = some elts.length := by
    have hpos := h.inorderPos
    unfold Recvq.inorderPos at hpos
    rcases hl : s.rq.lastInorder with _ | k
    · simp [hl] at hpos
    · simpa [hl] using hpos
  have hioves : rqe.ioves = [recvqIovectorSetup rqe] := by rw [RecvqElt.ioves, hmore]; rfl
  have hrecv : callReceiveInt .ok s.state .passed s.rq =
      (dequeue s.rq rqe elts, .data (recvqIovectorSetup rqe)
        ((dequeue s.rq rqe elts).queueLen.toNat + 1
          = (dequeue s.rq rqe elts).maxQueueLen.toNat)) := by
    simp [callReceiveInt, h.state, h.queue, hlast]
  refine ⟨_, rfl, ?_, ?_⟩
  · simp only [hrecv, Receive.taken, hioves]
  · simp only [hrecv]
    refine ⟨h.state, ?_, ?_, ?_, ?_, ?_, ?_⟩ <;>
      simp only [dequeue, hmore, noteHeadSerial, Recvq.inorderPos, hlast, h.nextFragnum,
        h.maxQueueLen, h.queueLen, h.inorderLen, List.length_cons, ofNat_succ_sub_one]
    rcases elts with _ | ⟨a, elts⟩ <;> rfl

/-- Every fragment is handed out as soon as it has arrived. -/
@[irreducible] def oneByOne (contents : List (List UInt8)) (k : ℕ) : List RecvEvent :=
  (List.range k).flatMap fun i => [.insert {} (copyPkt contents i), .receive .ok .passed]

theorem exec_oneByOne (contents : List (List UInt8)) (k : ℕ) :
    ∃ s, exec recvStep (receiverWithLimit 96) (oneByOne contents k) = some s ∧
      Straight 96 s k [] ∧
      s.handed = ((List.range k).map fun i => (copyPkt contents i).elt).flatMap RecvqElt.ioves := by
  induction k with
  | zero => exact ⟨_, by rw [oneByOne]; rfl, straight_start 96, rfl⟩
  | succ k ih =>
    obtain ⟨s, hs, hstraight, hhanded⟩ := ih
    obtain ⟨s₁, hs₁, hhanded₁, hstraight₁⟩ := straight_insert (copyPkt contents k)
      hstraight rfl rfl (by decide)
    obtain ⟨s₂, hs₂, hhanded₂, hstraight₂⟩ := straight_receive hstraight₁ rfl
    refine ⟨s₂, ?_, hstraight₂, ?_⟩
    · rw [oneByOne, List.range_succ, List.flatMap_append, exec_append, ← oneByOne, hs]
      simp only [List.flatMap_cons, List.flatMap_nil, List.append_nil, Option.bind_some, exec, hs₁,
        hs₂]
    · rw [hhanded₂, hhanded₁, hhanded, List.range_succ, List.map_append, List.flatMap_append]
      simp

theorem length_foldl_addBuffer {rqes : List RecvqElt} (hsome : ∀ rqe ∈ rqes, rqe.hdrp.isSome)
    (acc : List Frag) :
    ((rqes.flatMap RecvqElt.ioves).foldl addBuffer acc).length = acc.length + rqes.length := by
  induction rqes generalizing acc with
  | nil => rfl
  | cons rqe rqes ih =>
    obtain ⟨hdr, hhdr⟩ := Option.isSome_iff_exists.mp (hsome rqe List.mem_cons_self)
    rw [List.flatMap_cons, List.foldl_append, foldl_addBuffer_ioves _ hhdr,
      ih (fun r hr => hsome r (List.mem_cons_of_mem _ hr)), List.length_append,
      List.length_singleton, List.length_cons]
    omega

/-- One fragment is reassembled for each that was handed out. -/
theorem length_reassemble_oneByOne {contents : List (List UInt8)} {k : ℕ} {s : Receiver}
    (hhanded : s.handed
      = ((List.range k).map fun i => (copyPkt contents i).elt).flatMap RecvqElt.ioves) :
    (reassemble s.handed).length = k := by
  rw [reassemble, hhanded, length_foldl_addBuffer]
  · rw [List.length_nil, List.length_map, List.length_range, Nat.zero_add]
  · intro rqe hmem
    obtain ⟨i, -, rfl⟩ := List.mem_map.mp hmem
    rfl

/-- A stream in which fragment 0 differs from fragment `2^16`, which has the same number. -/
def turnStream : List (List UInt8) := [1] :: List.replicate 65536 [0]

theorem length_turnStream : turnStream.length = 65537 := by
  rw [turnStream, List.length_cons, List.length_replicate]

theorem getElem?_senderStream_turnStream :
    (senderStream turnStream)[65536]? = some ⟨0, [0]⟩ := by
  rw [senderStream, List.getElem?_mapIdx, turnStream, List.getElem?_cons_succ,
    List.getElem?_replicate, if_pos (by omega)]
  rfl

/-- After `2^16` fragments a second copy of fragment 0 arrives. -/
def turnRun : List RecvEvent :=
  oneByOne turnStream 65536 ++ [.insert {} (copyPkt turnStream 0), .receive .ok .passed]

theorem arrives_turnRun :
    Along recvStep (Arrives (senderStream turnStream)) (receiverWithLimit 96) turnRun := by
  apply along_of_forall
  intro e he s
  simp only [turnRun, oneByOne, List.mem_append, List.mem_flatMap, List.mem_cons,
    List.mem_range, List.not_mem_nil, or_false] at he
  rcases he with ⟨i, hi, rfl | rfl⟩ | rfl | rfl
  · exact arrives_copyPkt (by rw [length_turnStream]; omega) _ _
  · trivial
  · exact arrives_copyPkt (by rw [length_turnStream]; omega) _ _
  · trivial

theorem turnRun_spec : ∃ s, exec recvStep (receiverWithLimit 96) turnRun = some s ∧
    ¬ InitialSegment (reassemble s.handed) (senderStream turnStream) := by
  obtain ⟨s, hs, hstraight, hhanded⟩ := exec_oneByOne turnStream 65536
  obtain ⟨s₁, hs₁, hhanded₁, hstraight₁⟩ := straight_insert (copyPkt turnStream 0)
    hstraight (by decide) rfl (by decide)
  obtain ⟨s₂, hs₂, hhanded₂, -⟩ := straight_receive hstraight₁ rfl
  refine ⟨s₂, ?_, fun hseg => ?_⟩
  · rw [turnRun, exec_append, hs, Option.bind_some, exec, hs₁, Option.bind_some, exec, hs₂]
    rfl
  · have hlen := length_reassemble_oneByOne hhanded
    have hreass : reassemble s₂.handed = reassemble s.handed ++ [⟨0, [1]⟩] := by
      rw [hhanded₂, hhanded₁, reassemble, List.foldl_append, ← reassemble]
      have hhdr : (copyPkt turnStream 0).elt.hdrp = some (copyPkt turnStream 0).hdr := rfl
      exact foldl_addBuffer_ioves _ hhdr
    obtain ⟨rest, hrest, -⟩ := hseg.2 65536 ⟨0, [1]⟩ (by
      rw [hreass, ← hlen, List.getElem?_concat_length])
    rw [getElem?_senderStream_turnStream] at hrest
    simp [Frag.extend] at hrest

/-- Fragments arrive in order and none is handed out. -/
def fillRun (contents : List (List UInt8)) (k : ℕ) : List RecvEvent :=
  (List.range k).map fun i => .insert {} (copyPkt contents i)

theorem exec_fillRun (contents : List (List UInt8)) : ∀ k ≤ 256,
    ∃ s, exec recvStep (receiverWithLimit 256) (fillRun contents k) = some s ∧
      Straight 256 s k ((List.range k).map fun i => (copyPkt contents i).elt) := by
  intro k
  induction k with
  | zero => exact fun _ => ⟨_, rfl, straight_start 256⟩
  | succ k ih =>
    intro hk
    obtain ⟨s, hs, hstraight⟩ := ih (by omega)
    obtain ⟨s₁, hs₁, -, hstraight₁⟩ := straight_insert (copyPkt contents k)
      hstraight rfl rfl (by simp; omega)
    refine ⟨s₁, ?_, ?_⟩
    · rw [fillRun, List.range_succ, List.map_append, exec_append, ← fillRun, hs]
      simp only [List.map_cons, List.map_nil, Option.bind_some, exec, hs₁]
    · rw [List.range_succ, List.map_append]
      exact hstraight₁

end Dg
