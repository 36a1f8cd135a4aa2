/-
The shape of a receive queue.

A `View` gives every queued fragment an unbounded index: the `inorder` ones
that end just before `next`, the awaited one, and the ones `beyond` the gap.
`Shape P rq v` says that the fields of `rq` are what `v` makes them: the 16-bit
fragment numbers and the 8-bit counters are images of the indices and lengths
of `v`, and every fragment lies in the window that starts at the head and is
`max_queue_len` wide.  `P` is any property that fragments had on arrival.

* `enqueue_shape` — the three insertion paths keep the shape;
* `dequeue_shape` — so does taking the head off the queue.
-/
import FreeDce.Dg.Recvq

namespace Dg

variable {P : RecvqElt → ℕ → Prop} {rq rq' : Recvq} {env : CallEnv} {pkt : Pkt}

/-! ### Views -/

/-- Unbounded indices for a receive queue. -/
structure View where
  next : ℕ
  inorder : ℕ
  beyond : List ℕ

/-- The index of the head, if there is anything in order, else of the awaited fragment. -/
def View.first (v : View) : ℕ := v.next - v.inorder

/-- The indices of the queued fragments, in queue order. -/
def View.indices (v : View) : List ℕ := List.range' v.first v.inorder ++ v.beyond

theorem View.length_indices (v : View) : v.indices.length = v.inorder + v.beyond.length := by
  simp [View.indices]

/-- The element is a whole fragment with the given index that satisfies `P`, or
what is left of a fragment after its first buffer was handed out. -/
def Numbered (P : RecvqElt → ℕ → Prop) (rqe : RecvqElt) (i : ℕ) : Prop :=
  ∀ hdr, rqe.hdrp = some hdr → hdr.fragnum = BitVec.ofNat 16 i ∧ P rqe i

/-- The fields of the queue are what the view makes them. -/
structure Shape (P : RecvqElt → ℕ → Prop) (rq : Recvq) (v : View) : Prop where
  inorder_le : v.inorder ≤ v.next
  numbered : List.Forall₂ (Numbered P) rq.queue v.indices
  headers : ∀ rqe ∈ rq.queue.tail, rqe.hdrp.isSome
  gap_headers : v.inorder = 0 → ∀ rqe ∈ rq.queue, rqe.hdrp.isSome
  lastInorder_eq : rq.lastInorder = if v.inorder = 0 then none else some (v.inorder - 1)
  next_eq : rq.nextFragnum = BitVec.ofNat 16 v.next
  head_eq : ∀ i ∈ v.indices.head?, rq.headFragnum = BitVec.ofNat 16 i
  queueLen_eq : rq.queueLen = BitVec.ofNat 8 v.indices.length
  inorderLen_eq : rq.inorderLen = BitVec.ofNat 8 v.inorder
  sorted : v.beyond.Pairwise (· < ·)
  above : ∀ i ∈ v.beyond, v.next < i
  window : ∀ i ∈ v.beyond, i < v.first + rq.maxQueueLen.toNat
  inorder_le_max : v.inorder ≤ rq.maxQueueLen.toNat
  max_le : rq.maxQueueLen.toNat ≤ 255

/-! ### Lists of indices -/

/-- A strictly increasing list of numbers from `[a, b)` has at most `b - a` of them. -/
theorem length_le_of_increasing : ∀ {l : List ℕ} {a b : ℕ}, l.Pairwise (· < ·) →
    (∀ i ∈ l, a ≤ i) → (∀ i ∈ l, i < b) → l.length ≤ b - a := by
  intro l
  induction l with
  | nil => intro a b _ _ _; simp
  | cons i l ih =>
    intro a b hl ha hb
    obtain ⟨hi, hl⟩ := List.pairwise_cons.mp hl
    have hlen := ih (a := i + 1) hl (fun j hj => hi j hj)
      (fun j hj => hb j (List.mem_cons_of_mem _ hj))
    have h1 := ha i List.mem_cons_self
    have h2 := hb i List.mem_cons_self
    rw [List.length_cons]
    omega

namespace Shape

variable {v : View}

/-- The queue never holds more fragments than the limit. -/
theorem length_le (h : Shape P rq v) : v.indices.length ≤ rq.maxQueueLen.toNat := by
  have hlen := length_le_of_increasing (a := v.next) h.sorted
    (fun i hi => (h.above i hi).le) h.window
  have hle := h.inorder_le
  have hmax := h.inorder_le_max
  rw [View.length_indices]
  unfold View.first at hlen
  omega

/-- With nothing in order there is room for the awaited fragment. -/
theorem length_lt_of_gap (h : Shape P rq v) (hgap : v.inorder = 0)
    (hpos : 0 < rq.maxQueueLen.toNat) : v.indices.length < rq.maxQueueLen.toNat := by
  have hlen := length_le_of_increasing (a := v.next + 1) h.sorted
    (fun i hi => h.above i hi) h.window
  rw [View.length_indices]
  unfold View.first at hlen
  omega

theorem length_queue (h : Shape P rq v) : rq.queue.length = v.indices.length :=
  h.numbered.length_eq

theorem queueLen_toNat (h : Shape P rq v) : rq.queueLen.toNat = v.indices.length := by
  have h1 := h.length_le
  have h2 := h.max_le
  rw [h.queueLen_eq, BitVec.toNat_ofNat]
  exact Nat.mod_eq_of_lt (by omega)

theorem inorderLen_toNat (h : Shape P rq v) : rq.inorderLen.toNat = v.inorder := by
  have h1 := h.inorder_le_max
  have h2 := h.max_le
  rw [h.inorderLen_eq, BitVec.toNat_ofNat]
  exact Nat.mod_eq_of_lt (by omega)

theorem inorderPos_eq (h : Shape P rq v) : rq.inorderPos = v.inorder := by
  rw [Recvq.inorderPos, h.lastInorder_eq]
  by_cases h0 : v.inorder = 0
  · simp [h0]
  · simp only [h0, if_false]
    omega

theorem lastInorder_eq_none (h : Shape P rq v) : rq.lastInorder = none ↔ v.inorder = 0 := by
  rw [h.lastInorder_eq]
  by_cases h0 : v.inorder = 0 <;> simp [h0]

theorem queue_eq_nil (h : Shape P rq v) : rq.queue = [] ↔ v.indices = [] := by
  rw [← List.length_eq_zero_iff, ← List.length_eq_zero_iff, h.length_queue]

/-- What stands behind `last_inorder` carries the indices behind the gap. -/
theorem numbered_drop (h : Shape P rq v) :
    List.Forall₂ (Numbered P) (rq.queue.drop v.inorder) v.beyond := by
  have hdrop := List.forall₂_drop v.inorder h.numbered
  rwa [View.indices, List.drop_left' (by simp)] at hdrop

theorem numbered_take (h : Shape P rq v) :
    List.Forall₂ (Numbered P) (rq.queue.take v.inorder) (List.range' v.first v.inorder) := by
  have htake := List.forall₂_take v.inorder h.numbered
  rwa [View.indices, List.take_left' (by simp)] at htake

theorem headers_drop (h : Shape P rq v) :
    ∀ rqe ∈ rq.queue.drop v.inorder, rqe.hdrp.isSome := by
  intro rqe hmem
  by_cases h0 : v.inorder = 0
  · exact h.gap_headers h0 rqe (List.mem_of_mem_drop hmem)
  · apply h.headers
    obtain ⟨k, hk⟩ : ∃ k, v.inorder = k + 1 := ⟨v.inorder - 1, by omega⟩
    have htail : rq.queue.drop (k + 1) = rq.queue.tail.drop k := by cases rq.queue <;> simp
    rw [hk, htail] at hmem
    exact List.mem_of_mem_drop hmem

end Shape

theorem Shape.numbered_get {v : View} {k : ℕ} {rqe : RecvqElt}
    (h : Shape P rq v) (hget : rq.queue[k]? = some rqe) :
    ∃ i, v.indices[k]? = some i ∧ Numbered P rqe i := by
  obtain ⟨hk, hk'⟩ := List.getElem?_eq_some_iff.mp hget
  have hlen := h.length_queue
  have hnum := h.numbered.get (i := k) hk (by omega)
  simp only [List.get_eq_getElem, hk'] at hnum
  exact ⟨_, List.getElem?_eq_getElem (by omega), hnum⟩

/-! ### The scans -/

theorem Numbered.fragnum_eq {rqe : RecvqElt} {i : ℕ} (h : Numbered P rqe i)
    (hsome : rqe.hdrp.isSome) : rqe.hdrp.map PktHdr.fragnum = some (BitVec.ofNat 16 i) := by
  obtain ⟨hdr, hhdr⟩ := Option.isSome_iff_exists.mp hsome
  rw [hhdr, Option.map_some, (h hdr hhdr).1]

/-- The scan for consecutive numbers splits the indices into a run and the rest. -/
theorem scanInorder_spec : ∀ {rqes : List RecvqElt} {is : List ℕ} {n : ℕ},
    List.Forall₂ (Numbered P) rqes is → (∀ rqe ∈ rqes, rqe.hdrp.isSome) →
    is.Pairwise (· < ·) → (∀ i ∈ is, n ≤ i) → (∀ i ∈ is, i < n + 2 ^ 15) →
    ∃ is', is = List.range' n (scanInorder (BitVec.ofNat 16 n) rqes) ++ is' ∧
      ∀ i ∈ is', n + scanInorder (BitVec.ofNat 16 n) rqes < i := by
  intro rqes
  induction rqes with
  | nil =>
    intro is n hnum _ _ _ _
    cases hnum
    exact ⟨[], rfl, by simp⟩
  | cons rqe rqes ih =>
    intro is n hnum hsome hsorted hlo hhi
    obtain _ | ⟨hhead, hrest⟩ := hnum
    rename_i i is
    obtain ⟨hlt, hsorted'⟩ := List.pairwise_cons.mp hsorted
    have hi := hlo i List.mem_cons_self
    have hi' := hhi i List.mem_cons_self
    have hfrag := hhead.fragnum_eq (hsome rqe List.mem_cons_self)
    by_cases heq : i = n
    · subst heq
      have hscan : scanInorder (BitVec.ofNat 16 i) (rqe :: rqes)
          = scanInorder (BitVec.ofNat 16 (i + 1)) rqes + 1 := by
        rw [scanInorder, if_pos hfrag, BitVec.ofNat_add]
        rfl
      obtain ⟨is', heq', hgt⟩ := ih (n := i + 1) hrest
        (fun r hr => hsome r (List.mem_cons_of_mem _ hr)) hsorted'
        (fun j hj => hlt j hj) (fun j hj => by
          have := hhi j (List.mem_cons_of_mem _ hj)
          omega)
      rw [hscan]
      refine ⟨is', ?_, fun j hj => ?_⟩
      · rw [List.range'_succ, List.cons_append, ← heq']
      · have := hgt j hj
        omega
    · have hne : ¬ rqe.hdrp.map PktHdr.fragnum = some (BitVec.ofNat 16 n) := by
        rw [hfrag, Option.some_inj]
        exact fun hc => heq (Serial.ofNat_inj_near hc (by omega) (by omega))
      rw [scanInorder, if_neg hne]
      refine ⟨i :: is, rfl, fun j hj => ?_⟩
      rcases List.mem_cons.mp hj with rfl | hj
      · omega
      · have := hlt j hj
        omega

/-- The scan for smaller numbers splits the indices at `i`. -/
theorem scanBelow_spec {i : ℕ} : ∀ {rqes : List RecvqElt} {is : List ℕ},
    List.Forall₂ (Numbered P) rqes is → (∀ rqe ∈ rqes, rqe.hdrp.isSome) →
    is.Pairwise (· < ·) → (∀ j ∈ is, i < j + 2 ^ 15 ∧ j < i + 2 ^ 15) →
    ∃ low high, is = low ++ high ∧ low.length = scanBelow (BitVec.ofNat 16 i) rqes ∧
      (∀ j ∈ low, j < i) ∧ ∀ j ∈ high, i ≤ j := by
  intro rqes
  induction rqes with
  | nil =>
    intro is hnum _ _ _
    cases hnum
    exact ⟨[], [], rfl, rfl, by simp, by simp⟩
  | cons rqe rqes ih =>
    intro is hnum hsome hsorted hnear
    obtain _ | ⟨hhead, hrest⟩ := hnum
    rename_i j is
    obtain ⟨hlt, hsorted'⟩ := List.pairwise_cons.mp hsorted
    obtain ⟨hdr, hhdr⟩ := Option.isSome_iff_exists.mp (hsome rqe List.mem_cons_self)
    obtain ⟨hn1, hn2⟩ := hnear j List.mem_cons_self
    have hcmp : Serial.Lt hdr.fragnum (BitVec.ofNat 16 i) ↔ j < i := by
      rw [(hhead hdr hhdr).1]
      exact Serial.lt_ofNat_iff (w := 15) hn2 (by omega)
    simp only [scanBelow, hhdr]
    by_cases hji : j < i
    · obtain ⟨low, high, heq, hlen, hlow, hhigh⟩ := ih hrest
        (fun r hr => hsome r (List.mem_cons_of_mem _ hr)) hsorted'
        (fun k hk => hnear k (List.mem_cons_of_mem _ hk))
      rw [if_pos (hcmp.mpr hji)]
      refine ⟨j :: low, high, by rw [heq, List.cons_append], by simp [hlen], ?_, hhigh⟩
      intro k hk
      rcases List.mem_cons.mp hk with rfl | hk
      · exact hji
      · exact hlow k hk
    · rw [if_neg (fun hc => hji (hcmp.mp hc))]
      refine ⟨[], j :: is, rfl, rfl, by simp, fun k hk => ?_⟩
      rcases List.mem_cons.mp hk with rfl | hk
      · omega
      · have := hlt k hk
        omega

/-! ### Bookkeeping -/

section NoteAccepted

variable (rq : Recvq) (pkt : Pkt)

@[simp] theorem noteAccepted_queue : (noteAccepted rq pkt).queue = rq.queue := by
  unfold noteAccepted
  dsimp only
  split_ifs <;> rfl

@[simp] theorem noteAccepted_lastInorder : (noteAccepted rq pkt).lastInorder = rq.lastInorder := by
  unfold noteAccepted
  dsimp only
  split_ifs <;> rfl

@[simp] theorem noteAccepted_nextFragnum : (noteAccepted rq pkt).nextFragnum = rq.nextFragnum := by
  unfold noteAccepted
  dsimp only
  split_ifs <;> rfl

@[simp] theorem noteAccepted_headFragnum : (noteAccepted rq pkt).headFragnum = rq.headFragnum := by
  unfold noteAccepted
  dsimp only
  split_ifs <;> rfl

@[simp] theorem noteAccepted_maxQueueLen : (noteAccepted rq pkt).maxQueueLen = rq.maxQueueLen := by
  unfold noteAccepted
  dsimp only
  split_ifs <;> rfl

@[simp] theorem noteAccepted_inorderLen : (noteAccepted rq pkt).inorderLen = rq.inorderLen := by
  unfold noteAccepted
  dsimp only
  split_ifs <;> rfl

@[simp] theorem noteAccepted_recvingFrags : (noteAccepted rq pkt).recvingFrags = rq.recvingFrags := by
  unfold noteAccepted
  dsimp only
  split_ifs <;> rfl

@[simp] theorem noteAccepted_queueLen :
    (noteAccepted rq pkt).queueLen = rq.queueLen + 1 := by
  unfold noteAccepted
  dsimp only
  split_ifs <;> rfl

end NoteAccepted

theorem ofNat_succ {w : ℕ} (n : ℕ) : BitVec.ofNat w n + 1 = BitVec.ofNat w (n + 1) := by
  rw [BitVec.ofNat_add]
  rfl

theorem ofNat_succ_sub_one {w : ℕ} (n : ℕ) : BitVec.ofNat w (n + 1) - 1 = BitVec.ofNat w n := by
  rw [← ofNat_succ, BitVec.add_sub_cancel]

/-- Inserting an element with a header leaves headers everywhere behind the head. -/
theorem headers_insert {l : List RecvqElt} {x : RecvqElt} {pos : ℕ}
    (htail : ∀ rqe ∈ l.tail, rqe.hdrp.isSome)
    (hfront : pos = 0 → ∀ rqe ∈ l, rqe.hdrp.isSome) (hx : x.hdrp.isSome) :
    ∀ rqe ∈ (l.take pos ++ x :: l.drop pos).tail, rqe.hdrp.isSome := by
  intro rqe hmem
  rcases pos with _ | pos
  · exact hfront rfl rqe (by simpa using hmem)
  · rcases l with _ | ⟨a, l⟩
    · simp at hmem
    · simp only [List.take_succ_cons, List.drop_succ_cons, List.cons_append, List.tail_cons,
        List.mem_append, List.mem_cons] at hmem htail
      rcases hmem with hmem | rfl | hmem
      · exact htail rqe (List.mem_of_mem_take hmem)
      · exact hx
      · exact htail rqe (List.mem_of_mem_drop hmem)

/-- Inserting at or behind position `n` leaves the first `n` elements alone. -/
theorem take_insert {l : List RecvqElt} {x : RecvqElt} {pos n : ℕ} (hpos : n ≤ pos)
    (hn : n ≤ l.length) : (l.take pos ++ x :: l.drop pos).take n = l.take n := by
  rw [List.take_append_of_le_length (by rw [List.length_take]; omega), List.take_take]
  congr 1
  omega

theorem mem_drop_insert {l : List RecvqElt} {x rqe : RecvqElt} {pos n : ℕ} (hpos : n ≤ pos)
    (hn : n ≤ l.length) (hmem : rqe ∈ (l.take pos ++ x :: l.drop pos).drop n) :
    rqe = x ∨ rqe ∈ l.drop n := by
  rw [List.drop_append_of_le_length (by rw [List.length_take]; omega), List.mem_append,
    List.mem_cons] at hmem
  rcases hmem with hmem | hmem | hmem
  · rw [List.drop_take] at hmem
    exact .inr (List.mem_of_mem_take hmem)
  · exact .inl hmem
  · refine .inr ?_
    obtain ⟨d, rfl⟩ := Nat.exists_eq_add_of_le hpos
    rw [← List.drop_drop] at hmem
    exact List.mem_of_mem_drop hmem

theorem View.head?_indices {v : View} (hpos : 0 < v.inorder) :
    v.indices.head? = some v.first := by
  obtain ⟨k, hk⟩ : ∃ k, v.inorder = k + 1 := ⟨v.inorder - 1, by omega⟩
  rw [View.indices, hk, List.range'_succ]
  rfl

theorem Shape.queue_ne_nil {v : View} (h : Shape P rq v) (hpos : 0 < v.inorder) :
    rq.queue ≠ [] := by
  intro hnil
  have hlen := h.length_queue
  rw [hnil, View.length_indices] at hlen
  simp only [List.length_nil] at hlen
  omega

theorem Shape.headFragnum_eq {v : View} (h : Shape P rq v) (hpos : 0 < v.inorder) :
    rq.headFragnum = BitVec.ofNat 16 v.first :=
  h.head_eq _ (by rw [View.head?_indices hpos]; exact rfl)

/-! ### Insertion -/

/-- The fast path: the awaited fragment and those it joins up with become in order. -/
theorem insertInorder_shape {v : View} (h : Shape P rq v)
    (hfrag : pkt.hdr.fragnum = rq.nextFragnum) (hP : P pkt.elt v.next)
    (hroom : v.indices.length < rq.maxQueueLen.toNat) :
    ∃ m rest, Shape P (noteAccepted (insertInorder rq pkt) pkt)
      ⟨v.next + 1 + m, v.inorder + 1 + m, rest⟩ := by
  have hmax := h.max_le
  have hle := h.inorder_le
  obtain ⟨rest, hsplit, hgt⟩ := scanInorder_spec (n := v.next + 1) h.numbered_drop
    h.headers_drop h.sorted (fun i hi => h.above i hi) (fun i hi => by
      have h1 := h.window i hi
      unfold View.first at h1
      omega)
  rw [← ofNat_succ, ← h.next_eq] at hsplit hgt
  set m := scanInorder (rq.nextFragnum + 1) (rq.queue.drop v.inorder) with hm
  have hbeyond : v.beyond.length = m + rest.length := by rw [hsplit]; simp
  have hfirst : v.next + 1 + m - (v.inorder + 1 + m) = v.first := by
    unfold View.first
    omega
  rw [View.length_indices] at hroom
  have hsub : ∀ i ∈ rest, i ∈ v.beyond := by
    intro i hi
    rw [hsplit]
    exact List.mem_append_right _ hi
  have hindices : View.indices ⟨v.next + 1 + m, v.inorder + 1 + m, rest⟩
      = List.range' v.first v.inorder ++ v.next :: v.beyond := by
    have hnext : v.first + v.inorder = v.next := by
      unfold View.first
      omega
    rw [hsplit, View.indices, View.first, hfirst, show v.inorder + 1 + m = v.inorder + (m + 1)
      by omega, ← List.range'_append_1, hnext, List.range'_succ, List.append_assoc]
    rfl
  refine ⟨m, rest, ?_⟩
  constructor
  case inorder_le => simp only; omega
  case numbered =>
    rw [noteAccepted_queue, hindices, insertInorder, h.inorderPos_eq]
    refine List.rel_append h.numbered_take (List.Forall₂.cons ?_ h.numbered_drop)
    intro hdr hhdr
    obtain rfl : pkt.hdr = hdr := by simpa [Pkt.elt] using hhdr
    exact ⟨hfrag.trans h.next_eq, hP⟩
  case headers =>
    rw [noteAccepted_queue, insertInorder, h.inorderPos_eq]
    exact headers_insert h.headers h.gap_headers rfl
  case gap_headers => intro h0; simp at h0
  case lastInorder_eq =>
    have hpos : ¬ v.inorder + 1 + m = 0 := by omega
    rw [noteAccepted_lastInorder, insertInorder, h.inorderPos_eq, if_neg hpos, Option.some_inj]
    dsimp only
    omega
  case next_eq =>
    rw [noteAccepted_nextFragnum, insertInorder, h.inorderPos_eq, ← hm, h.next_eq, ofNat_succ,
      ← BitVec.ofNat_add]
  case head_eq =>
    intro i hi
    rw [View.head?_indices (by simp only; omega)] at hi
    obtain rfl : View.first ⟨v.next + 1 + m, v.inorder + 1 + m, rest⟩ = i := by simpa using hi
    rw [noteAccepted_headFragnum, insertInorder, View.first, hfirst]
    simp only [h.lastInorder_eq_none]
    by_cases h0 : v.inorder = 0
    · rw [if_pos h0, hfrag, h.next_eq, View.first, h0, Nat.sub_zero]
    · rw [if_neg h0, h.headFragnum_eq (by omega)]
  case queueLen_eq =>
    rw [noteAccepted_queueLen, insertInorder, h.queueLen_eq, ofNat_succ, View.length_indices,
      View.length_indices]
    congr 1
    simp only
    omega
  case inorderLen_eq =>
    rw [noteAccepted_inorderLen, insertInorder, h.inorderPos_eq, ← hm, h.inorderLen_eq,
      ofNat_succ, ← BitVec.ofNat_add]
  case sorted =>
    have hs := h.sorted
    rw [hsplit] at hs
    exact (List.pairwise_append.mp hs).2.1
  case above => exact fun i hi => hgt i hi
  case window =>
    intro i hi
    rw [noteAccepted_maxQueueLen, View.first, hfirst]
    exact h.window i (hsub i hi)
  case inorder_le_max =>
    rw [noteAccepted_maxQueueLen]
    simp only [insertInorder]
    omega
  case max_le => rw [noteAccepted_maxQueueLen]; exact hmax

/-- An out of order fragment inside the window is sorted in behind the gap. -/
theorem insertOutOfOrder_shape {v : View} {i : ℕ} (h : Shape P rq v)
    (hfrag : pkt.hdr.fragnum = BitVec.ofNat 16 i) (hP : P pkt.elt i) (hlt : v.next < i)
    (hnear : i < v.next + 2 ^ 15) (hwin : i < v.first + rq.maxQueueLen.toNat)
    (hins : insertOutOfOrder rq pkt = some rq') :
    ∃ rest, Shape P (noteAccepted rq' pkt) ⟨v.next, v.inorder, rest⟩ ∧
      ∃ pos, v.inorder ≤ pos ∧ rq'.queue = rq.queue.take pos ++ pkt.elt :: rq.queue.drop pos := by
  have hmax := h.max_le
  have hle := h.inorder_le
  obtain ⟨low, high, hsplit, hlen, hlow, hhigh⟩ := scanBelow_spec (i := i) h.numbered_drop
    h.headers_drop h.sorted (fun j hj => by
      have h1 := h.above j hj
      have h2 := h.window j hj
      unfold View.first at h2 hwin
      omega)
  rw [← hfrag] at hlen
  -- the position found by the scan splits the indices, and the queue with them
  set pos := rq.inorderPos + scanBelow pkt.hdr.fragnum (rq.queue.drop rq.inorderPos) with hpos
  rw [h.inorderPos_eq, ← hlen] at hpos
  have hindices : v.indices = (List.range' v.first v.inorder ++ low) ++ high := by
    rw [View.indices, hsplit, List.append_assoc]
  have hfront : (List.range' v.first v.inorder ++ low).length = pos := by
    rw [hpos]; simp
  have hnumbered := h.numbered
  rw [hindices] at hnumbered
  have htake := List.forall₂_take pos hnumbered
  have hdrop := List.forall₂_drop pos hnumbered
  rw [List.take_left' hfront] at htake
  rw [List.drop_left' hfront] at hdrop
  -- in every case the new queue has the packet at that position
  obtain ⟨hqueue, hhead, hne⟩ : rq'.queue = rq.queue.take pos ++ pkt.elt :: rq.queue.drop pos ∧
      rq'.headFragnum = (if pos = 0 then pkt.hdr.fragnum else rq.headFragnum) ∧
      (rq.queue.drop pos).head?.bind (fun rqe => rqe.hdrp.map PktHdr.fragnum)
        ≠ some pkt.hdr.fragnum := by
    unfold insertOutOfOrder at hins
    by_cases hnil : rq.queue = []
    · rw [if_pos hnil, Option.some_inj] at hins
      have hpos0 : pos = 0 := by
        have hi := (h.queue_eq_nil).mp hnil
        rw [hindices] at hi
        rw [← hfront, (List.append_eq_nil_iff.mp hi).1]
        rfl
      rw [← hins, hpos0, hnil]
      exact ⟨rfl, rfl, by simp⟩
    · rw [if_neg hnil] at hins
      dsimp only at hins
      rw [Option.ite_none_left_eq_some, Option.some_inj] at hins
      obtain ⟨hdup, rfl⟩ := hins
      exact ⟨rfl, rfl, hdup⟩
  have hframe : rq'.lastInorder = rq.lastInorder ∧ rq'.nextFragnum = rq.nextFragnum ∧
      rq'.maxQueueLen = rq.maxQueueLen ∧ rq'.queueLen = rq.queueLen ∧
      rq'.inorderLen = rq.inorderLen := by
    unfold insertOutOfOrder at hins
    split_ifs at hins
    · cases hins; exact ⟨rfl, rfl, rfl, rfl, rfl⟩
    · dsimp only at hins
      split_ifs at hins <;> cases hins <;> exact ⟨rfl, rfl, rfl, rfl, rfl⟩
  obtain ⟨hlast, hnext, hmaxq, hqlen, hilen⟩ := hframe
  -- the fragment is not a duplicate, so what follows it has larger indices
  have habove : ∀ j ∈ high, i < j := by
    have hsorted := h.sorted
    rw [hsplit] at hsorted
    rcases high with _ | ⟨j, high⟩
    · simp
    · obtain ⟨rqe, rqes, hj, -, hcons⟩ := List.forall₂_cons_right_iff.mp hdrop
      have hsome : rqe.hdrp.isSome := by
        apply h.headers_drop rqe
        have hmem : rqe ∈ rq.queue.drop pos := by rw [hcons]; exact List.mem_cons_self
        rw [hpos, ← List.drop_drop] at hmem
        exact List.mem_of_mem_drop hmem
      rw [hcons, List.head?_cons, Option.bind_some, hj.fragnum_eq hsome, hfrag] at hne
      have hij : i ≠ j := fun hc => hne (by rw [hc])
      have h1 := hhigh j List.mem_cons_self
      have h2 := (List.pairwise_cons.mp (List.pairwise_append.mp hsorted).2.1).1
      intro k hk
      rcases List.mem_cons.mp hk with rfl | hk
      · omega
      · have := h2 k hk
        omega
  refine ⟨low ++ i :: high, ?_, ?_⟩
  · constructor
    case inorder_le => exact hle
    case numbered =>
      rw [noteAccepted_queue, hqueue, View.indices, ← List.append_assoc]
      refine List.rel_append htake (List.Forall₂.cons ?_ hdrop)
      intro hdr hhdr
      obtain rfl : pkt.hdr = hdr := by simpa [Pkt.elt] using hhdr
      exact ⟨hfrag, hP⟩
    case headers =>
      rw [noteAccepted_queue, hqueue]
      exact headers_insert h.headers
        (fun h0 => h.gap_headers (by rw [hpos] at h0; omega)) rfl
    case gap_headers =>
      intro h0 rqe hmem
      rw [noteAccepted_queue, hqueue] at hmem
      rcases List.mem_append.mp hmem with hmem | hmem
      · exact h.gap_headers h0 rqe (List.mem_of_mem_take hmem)
      · rcases List.mem_cons.mp hmem with rfl | hmem
        · rfl
        · exact h.gap_headers h0 rqe (List.mem_of_mem_drop hmem)
    case lastInorder_eq => rw [noteAccepted_lastInorder, hlast]; exact h.lastInorder_eq
    case next_eq => rw [noteAccepted_nextFragnum, hnext]; exact h.next_eq
    case head_eq =>
      intro j hj
      rw [noteAccepted_headFragnum, hhead]
      by_cases hpos0 : pos = 0
      · have hl : low = [] := List.length_eq_zero_iff.mp (by omega)
        have hv : v.inorder = 0 := by omega
        rw [if_pos hpos0, hfrag]
        obtain rfl : i = j := by simpa [View.indices, hl, hv] using hj
        rfl
      · rw [if_neg hpos0]
        apply h.head_eq
        rw [hindices]
        have hcons : List.range' v.first v.inorder ++ low ≠ [] := by
          intro hc
          rw [hc] at hfront
          exact hpos0 hfront.symm
        rw [View.indices, ← List.append_assoc] at hj
        change j ∈ ((List.range' v.first v.inorder ++ low) ++ i :: high).head? at hj
        rw [List.head?_append_of_ne_nil _ hcons] at hj ⊢
        exact hj
    case queueLen_eq =>
      rw [noteAccepted_queueLen, hqlen, h.queueLen_eq, ofNat_succ, View.length_indices,
        View.length_indices, hsplit]
      congr 1
      simp only [List.length_append, List.length_cons]
      omega
    case inorderLen_eq => rw [noteAccepted_inorderLen, hilen]; exact h.inorderLen_eq
    case sorted =>
      have hs := h.sorted
      rw [hsplit] at hs
      obtain ⟨hs1, hs2, -⟩ := List.pairwise_append.mp hs
      refine List.pairwise_append.mpr ⟨hs1, List.pairwise_cons.mpr ⟨habove, hs2⟩, ?_⟩
      intro a ha b hb
      have h1 := hlow a ha
      rcases List.mem_cons.mp hb with rfl | hb
      · exact h1
      · have := habove b hb
        omega
    case above =>
      intro j hj
      rcases List.mem_append.mp hj with hj | hj
      · exact h.above j (by rw [hsplit]; exact List.mem_append_left _ hj)
      · rcases List.mem_cons.mp hj with rfl | hj
        · exact hlt
        · exact h.above j (by rw [hsplit]; exact List.mem_append_right _ hj)
    case window =>
      intro j hj
      rw [noteAccepted_maxQueueLen, hmaxq]
      rcases List.mem_append.mp hj with hj | hj
      · exact h.window j (by rw [hsplit]; exact List.mem_append_left _ hj)
      · rcases List.mem_cons.mp hj with rfl | hj
        · exact hwin
        · exact h.window j (by rw [hsplit]; exact List.mem_append_right _ hj)
    case inorder_le_max => rw [noteAccepted_maxQueueLen, hmaxq]; exact h.inorder_le_max
    case max_le => rw [noteAccepted_maxQueueLen, hmaxq]; exact hmax
  · exact ⟨pos, by omega, hqueue⟩

/-- A fragment that is neither awaited nor behind nor refused lies in the window. -/
theorem Shape.window_of_not_beyond {v : View} {i : ℕ} (h : Shape P rq v)
    (hlt : v.next < i) (hnear : i < v.next + 2 ^ 15)
    (hwin : beyondWindow rq (BitVec.ofNat 16 i) = false) :
    i < v.first + rq.maxQueueLen.toNat := by
  have hmax := h.max_le
  have hle := h.inorder_le
  have hio := h.inorder_le_max
  have hofNat : rq.maxQueueLen = BitVec.ofNat 16 rq.maxQueueLen.toNat := by
    rw [BitVec.ofNat_toNat, BitVec.setWidth_eq]
  simp only [beyondWindow, decide_eq_false_iff_not, not_or, not_and] at hwin
  obtain ⟨hhead, hnext⟩ := hwin
  by_cases h0 : v.inorder = 0
  · rw [h.next_eq, hofNat, ← BitVec.ofNat_add,
      Serial.le_ofNat_iff (w := 15) (by omega) (by omega)] at hnext
    unfold View.first
    omega
  · have hfirst := h.headFragnum_eq (by omega)
    have hnil := h.queue_ne_nil (by omega)
    have hbefore : Serial.Lt rq.headFragnum rq.nextFragnum := by
      rw [hfirst, h.next_eq]
      unfold View.first
      exact (Serial.lt_ofNat_iff (w := 15) (by omega) (by omega)).mpr (by omega)
    have hle' := hhead hnil hbefore
    unfold View.first at hfirst
    rw [hfirst, hofNat, ← BitVec.ofNat_add,
      Serial.le_ofNat_iff (w := 15) (by omega) (by omega)] at hle'
    unfold View.first
    omega

/-- Accepting a packet leaves the limit and the flags of the queue alone. -/
theorem enqueue_frame (henq : enqueue env rq pkt = some rq') :
    rq'.maxQueueLen = rq.maxQueueLen ∧ rq'.recvingFrags = rq.recvingFrags ∧
      rq'.allPktsRecvd = rq.allPktsRecvd := by
  simp only [enqueue, insertOutOfOrder] at henq
  split_ifs at henq <;> cases henq <;> exact ⟨rfl, rfl, rfl⟩

/-- An accepted packet is put somewhere into the queue. -/
theorem enqueue_queue (henq : enqueue env rq pkt = some rq') :
    ∃ pos, rq'.queue = rq.queue.take pos ++ pkt.elt :: rq.queue.drop pos := by
  simp only [enqueue, insertOutOfOrder] at henq
  split_ifs at henq with _ _ _ _ _ _ _ hnil
  · cases henq
    exact ⟨rq.inorderPos, rfl⟩
  · cases henq
    exact ⟨0, by rw [hnil]; rfl⟩
  all_goals
    cases henq
    exact ⟨_, rfl⟩

/-- Whatever is accepted keeps the shape.  What was in order stays where it is,
and everything behind it has a header. -/
theorem enqueue_shape {v : View} (h : Shape P rq v)
    (hP : ∀ i, pkt.hdr.fragnum = BitVec.ofNat 16 i → v.next ≤ i →
      i < v.next + rq.maxQueueLen.toNat → P pkt.elt i)
    (henq : enqueue env rq pkt = some rq') :
    ∃ v', Shape P (noteAccepted rq' pkt) v' ∧ v'.first = v.first ∧ v.next ≤ v'.next ∧
      rq'.queue.take v.inorder = rq.queue.take v.inorder ∧
      ∀ rqe ∈ rq'.queue.drop v.inorder, rqe.hdrp.isSome := by
  have hle := h.inorder_le
  have hlen := h.length_queue
  rw [View.length_indices] at hlen
  have hframe : ∀ pos, v.inorder ≤ pos →
      rq'.queue = rq.queue.take pos ++ pkt.elt :: rq.queue.drop pos →
      rq'.queue.take v.inorder = rq.queue.take v.inorder ∧
        ∀ rqe ∈ rq'.queue.drop v.inorder, rqe.hdrp.isSome := by
    intro pos hpos hqueue
    rw [hqueue]
    refine ⟨take_insert hpos (by omega), fun rqe hmem => ?_⟩
    rcases mem_drop_insert hpos (by omega) hmem with rfl | hmem
    · rfl
    · exact h.headers_drop rqe hmem
  have hmax := h.max_le
  unfold enqueue at henq
  rw [Option.ite_none_left_eq_some] at henq
  obtain ⟨-, henq⟩ := henq
  by_cases hnext : pkt.hdr.fragnum = rq.nextFragnum
  · -- the awaited fragment
    rw [if_pos hnext, Option.ite_none_left_eq_some, Option.ite_none_left_eq_some,
      Option.some_inj] at henq
    obtain ⟨hfull, -, rfl⟩ := henq
    rw [h.queueLen_toNat] at hfull
    have hroom := lt_of_le_of_ne h.length_le hfull
    have hPnext := hP v.next (hnext.trans h.next_eq) le_rfl (by omega)
    obtain ⟨m, rest, hshape⟩ := insertInorder_shape h hnext hPnext hroom
    refine ⟨_, hshape, ?_, ?_, hframe v.inorder le_rfl ?_⟩
    · unfold View.first
      dsimp only
      omega
    · dsimp only
      omega
    · rw [insertInorder, h.inorderPos_eq]
  · -- a fragment behind a gap
    rw [if_neg hnext, Option.ite_none_left_eq_some, Option.ite_none_left_eq_some,
      Option.ite_none_left_eq_some] at henq
    obtain ⟨hbehind, -, hwin, hins⟩ := henq
    obtain ⟨i, hi, hi', hfrag⟩ := Serial.exists_index v.next pkt.hdr.fragnum
    have hne : i ≠ v.next := fun hc => hnext (by rw [← hfrag, hc, h.next_eq])
    have hnear : i < v.next + 2 ^ 15 := by
      by_contra hc
      apply hbehind
      rw [← hfrag, h.next_eq]
      exact Serial.lt_ofNat_of_far (w := 15) (by omega) (by omega)
    have hlt : v.next < i := by omega
    rw [← hfrag, Bool.not_eq_true] at hwin
    have hwindow := h.window_of_not_beyond hlt hnear hwin
    obtain ⟨rest, hshape, pos, hpos, hqueue⟩ := insertOutOfOrder_shape h hfrag.symm
      (hP i hfrag.symm hi (by unfold View.first at hwindow; omega)) hlt hnear hwindow hins
    exact ⟨_, hshape, rfl, le_rfl, hframe pos hpos hqueue⟩

/-! ### Arrival -/

/-- The fields that a view speaks about, the limit apart, are the same. -/
structure SameQueue (rq rq' : Recvq) : Prop where
  queue : rq'.queue = rq.queue
  lastInorder : rq'.lastInorder = rq.lastInorder
  nextFragnum : rq'.nextFragnum = rq.nextFragnum
  headFragnum : rq'.headFragnum = rq.headFragnum
  queueLen : rq'.queueLen = rq.queueLen
  inorderLen : rq'.inorderLen = rq.inorderLen
  allPktsRecvd : rq'.allPktsRecvd = rq.allPktsRecvd

/-- The bookkeeping on arrival changes at most the limit. -/
theorem noteArrival_sameQueue (env : CallEnv) (rq : Recvq) (pkt : Pkt) :
    SameQueue rq (noteArrival env rq pkt) := by
  unfold noteArrival noteFragLen
  dsimp only
  split_ifs <;> exact ⟨rfl, rfl, rfl, rfl, rfl, rfl, rfl⟩

theorem noteArrival_maxQueueLen (env : CallEnv) (rq : Recvq) (pkt : Pkt) :
    (noteArrival env rq pkt).maxQueueLen =
      if cutsLimit env rq pkt.fragLen then BitVec.ofNat 16 (reducedQueueLen env)
      else rq.maxQueueLen := by
  unfold noteArrival noteFragLen
  dsimp only
  split <;> rfl

theorem noteArrival_recvingFrags (env : CallEnv) (rq : Recvq) (pkt : Pkt) :
    (noteArrival env rq pkt).recvingFrags
      = (rq.recvingFrags || pkt.hdr.flagIsSet pfFrag) := by
  unfold noteArrival noteFragLen
  dsimp only
  split <;> rfl

theorem reducedQueueLen_le (env : CallEnv) : reducedQueueLen env ≤ 96 :=
  Nat.div_le_self _ _

/-- A queue with the same contents under a limit that still covers the window. -/
theorem Shape.of_sameQueue {v : View} (h : Shape P rq v) (hsame : SameQueue rq rq')
    (hwin : ∀ i ∈ v.beyond, i < v.first + rq'.maxQueueLen.toNat)
    (hio : v.inorder ≤ rq'.maxQueueLen.toNat) (hmax : rq'.maxQueueLen.toNat ≤ 255) :
    Shape P rq' v where
  inorder_le := h.inorder_le
  numbered := by rw [hsame.queue]; exact h.numbered
  headers := by rw [hsame.queue]; exact h.headers
  gap_headers := by rw [hsame.queue]; exact h.gap_headers
  lastInorder_eq := by rw [hsame.lastInorder]; exact h.lastInorder_eq
  next_eq := by rw [hsame.nextFragnum]; exact h.next_eq
  head_eq := by rw [hsame.headFragnum]; exact h.head_eq
  queueLen_eq := by rw [hsame.queueLen]; exact h.queueLen_eq
  inorderLen_eq := by rw [hsame.inorderLen]; exact h.inorderLen_eq
  sorted := h.sorted
  above := h.above
  window := hwin
  inorder_le_max := hio
  max_le := hmax

/-- Where the limit is cut down there is something in order, and `queue_len` fits. -/
theorem cutsLimit_spec {fragLen : ℕ} (h : cutsLimit env rq fragLen = true) :
    rq.queueLen.toNat ≤ reducedQueueLen env ∧ 0 < rq.inorderLen.toNat := by
  simp only [cutsLimit, decide_eq_true_eq] at h
  exact ⟨h.2.2.1, h.2.2.2⟩

/-- An arrival keeps the shape if the limit, should it be cut down, still covers
the window that is in use. -/
theorem noteArrival_shape (env : CallEnv) (pkt : Pkt) {v : View} (h : Shape P rq v)
    (hcut : cutsLimit env rq pkt.fragLen = true →
      ∀ i ∈ v.beyond, i < v.first + reducedQueueLen env) :
    Shape P (noteArrival env rq pkt) v := by
  have hmax := noteArrival_maxQueueLen env rq pkt
  by_cases hc : cutsLimit env rq pkt.fragLen = true
  · have hred := reducedQueueLen_le env
    have hlen := (cutsLimit_spec hc).1
    rw [h.queueLen_toNat, View.length_indices] at hlen
    have hnat : (noteArrival env rq pkt).maxQueueLen.toNat = reducedQueueLen env := by
      rw [hmax, if_pos hc, BitVec.toNat_ofNat]
      exact Nat.mod_eq_of_lt (by omega)
    apply h.of_sameQueue (noteArrival_sameQueue env rq pkt)
    · rw [hnat]
      exact hcut hc
    · omega
    · omega
  · rw [if_neg hc] at hmax
    apply h.of_sameQueue (noteArrival_sameQueue env rq pkt)
    · rw [hmax]
      exact h.window
    · rw [hmax]
      exact h.inorder_le_max
    · rw [hmax]
      exact h.max_le

/-! ### Removal -/

/-- Taking a buffer off a queue with something in order keeps the shape: either
the head fragment has more data, or the next fragment becomes the head. -/
theorem dequeue_shape {v : View} {rqe : RecvqElt} {rest : List RecvqElt} (h : Shape P rq v)
    (hqueue : rq.queue = rqe :: rest) (hpos : 0 < v.inorder) :
    Shape P (dequeue rq rqe rest)
      (if rqe.moreData = [] then ⟨v.next, v.inorder - 1, v.beyond⟩ else v) := by
  have hle := h.inorder_le
  have hlen := h.length_queue
  have hnum := h.numbered
  have hheaders := h.headers
  obtain ⟨k, hk⟩ : ∃ k, v.inorder = k + 1 := ⟨v.inorder - 1, by omega⟩
  have hindices : v.indices = v.first :: View.indices ⟨v.next, v.inorder - 1, v.beyond⟩ := by
    have hfirst : v.next - k = v.first + 1 := by
      unfold View.first
      omega
    rw [View.indices, View.indices, hk, List.range'_succ, Nat.add_sub_cancel]
    change _ = v.first :: (List.range' (v.next - k) k ++ v.beyond)
    rw [hfirst]
    rfl
  rw [hqueue, hindices] at hnum
  rw [hqueue, List.tail_cons] at hheaders
  obtain _ | ⟨-, hrest⟩ := hnum
  unfold dequeue
  rcases hmore : rqe.moreData with _ | ⟨body, more⟩
  · rw [if_pos rfl]
    constructor
    case inorder_le => dsimp only; omega
    case numbered => exact hrest
    case headers => exact fun r hr => hheaders r (List.mem_of_mem_tail hr)
    case gap_headers => exact fun _ => hheaders
    case lastInorder_eq =>
      simp only [noteHeadSerial, h.lastInorder_eq, hk, Nat.add_sub_cancel]
      rcases k with _ | k <;> rfl
    case next_eq => exact h.next_eq
    case head_eq =>
      intro i hi
      obtain ⟨is, his⟩ : ∃ is, View.indices ⟨v.next, v.inorder - 1, v.beyond⟩ = i :: is :=
        List.head?_eq_some_iff.mp hi
      rw [his] at hrest
      obtain ⟨r, rs, hr, -, rfl⟩ := List.forall₂_cons_right_iff.mp hrest
      obtain ⟨hdr, hhdr⟩ := Option.isSome_iff_exists.mp (hheaders r List.mem_cons_self)
      simp only [List.head?_cons, Option.bind_some, hhdr]
      exact (hr hdr hhdr).1
    case queueLen_eq =>
      simp only [noteHeadSerial, h.queueLen_eq, hindices, List.length_cons]
      exact ofNat_succ_sub_one _
    case inorderLen_eq =>
      simp only [noteHeadSerial, h.inorderLen_eq, hk, Nat.add_sub_cancel]
      exact ofNat_succ_sub_one _
    case sorted => exact h.sorted
    case above => exact h.above
    case window =>
      intro i hi
      have hwin := h.window i hi
      unfold View.first at hwin ⊢
      simp only [noteHeadSerial]
      omega
    case inorder_le_max =>
      have hio := h.inorder_le_max
      simp only [noteHeadSerial]
      omega
    case max_le => exact h.max_le
  · rw [if_neg (List.cons_ne_nil _ _)]
    -- the remainder of the fragment has no header, so nothing is asked of it
    have hrest' : List.Forall₂ (Numbered P)
        ({ hdrp := none, body := body, moreData := more } :: rest) v.indices := by
      rw [hindices]
      exact List.Forall₂.cons (fun hdr hhdr => by simp at hhdr) hrest
    have hgap : v.inorder = 0 → ∀ r ∈ ({ hdrp := none, body := body, moreData := more } :: rest :
        List RecvqElt), r.hdrp.isSome := fun h0 => by omega
    exact ⟨hle, hrest', hheaders, hgap, h.lastInorder_eq, h.next_eq, h.head_eq, h.queueLen_eq,
      h.inorderLen_eq, h.sorted, h.above, h.window, h.inorder_le_max, h.max_le⟩

/-! ### The new queue -/

theorem recvqInit_shape : Shape P recvqInit ⟨0, 0, []⟩ where
  inorder_le := le_rfl
  numbered := List.Forall₂.nil
  headers := by simp [recvqInit]
  gap_headers := by simp [recvqInit]
  lastInorder_eq := rfl
  next_eq := rfl
  head_eq := by simp [View.indices]
  queueLen_eq := rfl
  inorderLen_eq := rfl
  sorted := List.Pairwise.nil
  above := by simp
  window := by simp
  inorder_le_max := Nat.zero_le _
  max_le := by decide

end Dg
