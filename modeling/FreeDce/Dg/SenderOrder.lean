/-
The numbers on the transmit queue (dgxq.c, dgcall.c, dglsn.c).

Elements are numbered as they are allocated.  What the sender does to its queue in any run is said
in these terms: the fragment number of an element is its number modulo `2^16`, the unsent elements
are the last ones, and only a fack takes an element off the queue.

* `step_ordered` — what each routine but that for facks keeps, and what it does to the queue;
* `fack_ordered` — the same for a fack; an element that it frees is named by its header or by a bit
  of its mask.
-/
import FreeDce.Dg.XmitQueue

namespace Dg

namespace XmitQueue

open Selack

variable {fack : Heard} {firstUnsent : Option ℕ} {s s' : State} {xq : Xmitq}
  {queue l m : List XmitqElt}

/-! ### Addresses and numbers -/

/-- The addresses with the fragment numbers. -/
def keys (queue : List XmitqElt) : List (ℕ × BitVec 16) :=
  queue.map fun xqe => (xqe.ptr, xqe.fragnum)

theorem keys_append (l m : List XmitqElt) : keys (l ++ m) = keys l ++ keys m := List.map_append

theorem keys_fst (queue : List XmitqElt) : (keys queue).map Prod.fst = ptrs queue := by
  rw [keys, List.map_map]
  rfl

theorem ptrs_of_keys (h : keys l = keys m) : ptrs l = ptrs m := by
  rw [← keys_fst, ← keys_fst, h]

theorem keys_map {f : XmitqElt → XmitqElt} (hptr : ∀ x, (f x).ptr = x.ptr)
    (hnum : ∀ x, (f x).fragnum = x.fragnum) (queue : List XmitqElt) :
    keys (queue.map f) = keys queue := by
  rw [keys, List.map_map]
  refine List.map_congr_left fun x _ => ?_
  rw [Function.comp_apply, hptr, hnum]

theorem keys_xmitElt (asks : Bool) (p : ℕ) (xq : Xmitq) :
    keys (xmitElt asks p xq).queue = keys xq.queue := by
  refine keys_map (fun x => ?_) (fun x => ?_) xq.queue
  · split <;> rfl
  · split <;> rfl

theorem xmitLoop_keys (blast extra n numSent : ℕ) (again unsent : List ℕ) (xq : Xmitq) :
    keys (xmitLoop blast extra n numSent again unsent xq).1.queue = keys xq.queue ∧
      (xmitLoop blast extra n numSent again unsent xq).1.nextFragnum = xq.nextFragnum := by
  induction n generalizing numSent again unsent xq with
  | zero => exact ⟨rfl, rfl⟩
  | succ n ih =>
    cases again with
    | cons p again =>
      rw [xmitLoop]
      obtain ⟨hkeys, hnext⟩ := ih (numSent + 1) again unsent (xmitElt
        (!xq.isFrag || decide (numSent = extra) || decide (numSent = blast)) p xq)
      exact ⟨hkeys.trans (keys_xmitElt _ _ _), hnext⟩
    | nil =>
      cases unsent with
      | cons p unsent =>
        rw [xmitLoop]
        obtain ⟨hkeys, hnext⟩ := ih (numSent + 1) [] unsent { xmitElt
          (!xq.isFrag || decide (numSent = extra) || decide (numSent = blast)) p xq with
            firstUnsent := unsent.head? }
        exact ⟨hkeys.trans (keys_xmitElt _ _ _), hnext⟩
      | nil => exact ⟨rfl, rfl⟩

theorem outOfWindow_foldl_frame (l : List XmitqElt) (xq : Xmitq) :
    (l.foldl outOfWindow xq).firstUnsent = xq.firstUnsent ∧
      (l.foldl outOfWindow xq).nextFragnum = xq.nextFragnum := by
  induction l generalizing xq with
  | nil => exact ⟨rfl, rfl⟩
  | cons xqe rest ih =>
    have hnext : (outOfWindow xq xqe).nextFragnum = xq.nextFragnum := by
      unfold outOfWindow
      split_ifs <;> rfl
    obtain ⟨hfirst', hnext'⟩ := ih (outOfWindow xq xqe)
    exact ⟨hfirst'.trans (outOfWindow_frame xq xqe).1, hnext'.trans hnext⟩

/-! ### The loops over a fack -/

/-- An element of the list was an element before. -/
def From (l m : List XmitqElt) : Prop := ∀ k ∈ keys m, k ∈ keys l

theorem From.append {l' m' : List XmitqElt} (h : From l m) (h' : From l' m') :
    From (l ++ l') (m ++ m') := by
  intro k hk
  rw [keys_append] at hk ⊢
  exact (List.mem_append.mp hk).elim (fun hk => List.mem_append_left _ (h k hk))
    fun hk => List.mem_append_right _ (h' k hk)

theorem From.of_subset (h : m ⊆ l) : From l m := fun _ hk => List.map_subset _ h hk

/-- What the mask makes of one element. -/
theorem markElt_from (acked : Bool) (xqe : XmitqElt) (t : Scan) :
    From (t.kept ++ [xqe]) (markElt fack acked xqe t).kept := by
  have hsame : ∀ x : XmitqElt, x.ptr = xqe.ptr → x.fragnum = xqe.fragnum →
      From (t.kept ++ [xqe]) (t.kept ++ [x]) := fun x hptr hnum =>
    From.append (From.of_subset fun _ h => h) (by
      intro k hk
      rw [keys, List.map_singleton, hptr, hnum] at hk
      exact hk)
  unfold markElt
  split
  · simp only [free, leaveCwindow_kept, trackCurrentBlast_kept]
    exact From.of_subset (List.subset_append_left _ _)
  · split
    · unfold markLost
      dsimp only
      split
      · simp only [addRexmit, leaveCwindow_kept, trackCurrentBlast_kept]
        exact hsame _ rfl rfl
      · simp only [addRexmit, leaveCwindow_kept, trackCurrentBlast_kept]
        exact hsame _ rfl rfl
    · exact hsame xqe rfl rfl

theorem maskWord_from (last : Bool) (n : ℕ) (mask : BitVec 32) (cursor : ℕ) (curr : List XmitqElt)
    (t : Scan) : From (t.kept ++ curr) ((maskWord fack last n mask cursor curr t).2.kept ++
      (maskWord fack last n mask cursor curr t).1) := by
  induction n generalizing mask cursor curr t with
  | zero => exact From.of_subset fun _ h => h
  | succ n ih =>
    cases curr with
    | nil => exact From.of_subset fun _ h => h
    | cons xqe rest =>
      rw [maskWord]
      split
      · exact From.of_subset fun _ h => h
      · split
        · exact ih _ _ _ _
        · have hone : From (t.kept ++ [xqe] ++ rest)
              ((markElt fack (mask.getLsbD 0) xqe t).kept ++ rest) :=
            (markElt_from _ xqe t).append (From.of_subset fun _ h => h)
          rw [List.append_assoc] at hone
          exact fun k hk => hone k (ih _ _ _ _ k hk)

theorem maskWords_from (selack : ℕ → BitVec 32) (n i cursor : ℕ) (curr : List XmitqElt) (t : Scan) :
    From (t.kept ++ curr) ((maskWords fack selack n i cursor curr t).1.2.kept ++
      (maskWords fack selack n i cursor curr t).1.1) := by
  induction n generalizing i cursor curr t with
  | zero => exact From.of_subset fun _ h => h
  | succ n ih =>
    rw [maskWords]
    split
    · exact maskWord_from _ _ _ _ _ _
    · exact fun k hk => maskWord_from _ _ _ _ _ _ k (ih _ _ _ _ k hk)

theorem tailScan_from {curr curr' : List XmitqElt} {t t' : Scan}
    (h : tailScan fack firstUnsent curr t = some (curr', t')) :
    From (t.kept ++ curr) (t'.kept ++ curr') := by
  induction curr generalizing t with
  | nil =>
    rw [tailScan, Option.ite_none_right_eq_some] at h
    cases h.2
    exact From.of_subset fun _ h => h
  | cons xqe rest ih =>
    rw [tailScan] at h
    split at h
    · cases h
      exact From.of_subset fun _ h => h
    · split at h
      · have hrest := ih h
        rw [addRexmit, leaveCwindow_kept, List.append_assoc, From, keys_append t.kept] at hrest
        rw [From, keys_append t.kept]
        exact hrest
      · have hrest := ih h
        rw [keep, List.append_assoc] at hrest
        exact hrest

/-- What a fack leaves of the queue was on it. -/
theorem fackCommon_from (hxq : XmitqOk xq) {resvs : Resvs} {pkt : FackPkt} {r : Result}
    (hr : fackCommon resvs xq pkt = some r) : From xq.queue r.xq.queue := by
  have hbehind : behind xq pkt.fragnum ⊆ xq.queue := (List.dropWhile_sublist _).subset
  rcases Nat.eq_zero_or_pos pkt.len with hlen | hlen
  · obtain ⟨xq', heard, t, -, -, hkept, -, -, heq⟩ := fackCommon_head hxq resvs pkt
    rw [if_neg hlen.not_gt, hr] at heq
    cases heq
    rw [(sizeBlast_frame _ _ _).1]
    exact From.of_subset hbehind
  · cases hmask : pkt.usingSelacks with
    | false =>
      rw [fackCommon_of_old hxq resvs hlen hmask] at hr
      cases hr
    | true =>
      obtain ⟨heard, t, -, ⟨hkept, -⟩, hsome, hnone⟩ := fackCommon_selacks hxq resvs hmask
      cases hsel : doSelectiveAck heard xq.firstUnsent pkt (behind xq pkt.fragnum) t with
      | none =>
        rw [hnone hsel] at hr
        cases hr
      | some result =>
        obtain ⟨⟨queue, t'⟩, read⟩ := result
        obtain ⟨r', hr', -, hqueue, -⟩ := hsome _ _ _ hsel
        obtain rfl := Option.some_inj.mp (hr'.symm.trans hr)
        rw [hqueue]
        rw [doSelectiveAck] at hsel
        split at hsel
        · cases hsel
          rw [hkept]
          exact From.of_subset (List.nil_subset _)
        · obtain ⟨scanned, hscan, heq⟩ := Option.map_eq_some_iff.mp hsel
          cases heq
          intro k hk
          have hin := maskWords_from _ _ _ _ _ _ k (tailScan_from hscan k hk)
          rw [hkept] at hin
          exact List.map_subset _ hbehind hin

theorem sizeBlast_nextFragnum (xq : Xmitq) (a b : BitVec 32) :
    (sizeBlast xq a b).nextFragnum = xq.nextFragnum := by
  have hraise : ∀ xq : Xmitq, (raiseMaxBlast xq).nextFragnum = xq.nextFragnum := by
    intro xq
    unfold raiseMaxBlast
    dsimp only
    split_ifs <;> rfl
  have hnote : (noteLoss xq b).nextFragnum = xq.nextFragnum := by
    unfold noteLoss
    dsimp only
    split_ifs <;> rfl
  exact (hraise _).trans hnote

theorem fackCommon_nextFragnum (hxq : XmitqOk xq) {resvs : Resvs} {pkt : FackPkt} {r : Result}
    (hr : fackCommon resvs xq pkt = some r) : r.xq.nextFragnum = xq.nextFragnum := by
  obtain ⟨xq', heard, t, ⟨-, hnext, -⟩, -, -, -, -, heq⟩ := fackCommon_head hxq resvs pkt
  rw [hr] at heq
  split at heq
  · split at heq
    · rename_i hmask
      obtain ⟨⟨xq'', t', read⟩, hbody, rfl⟩ := Option.map_eq_some_iff.mp heq.symm
      rw [FackPkt.usingSelacks, Bool.and_eq_true, decide_eq_true_eq, decide_eq_true_eq] at hmask
      rw [doFackBody, if_neg fun h => h hmask.2, if_pos hmask.1] at hbody
      obtain ⟨⟨⟨queue, t₂⟩, n⟩, -, hbody⟩ := Option.bind_eq_some_iff.mp hbody
      cases hbody
      rw [sizeBlast_nextFragnum, ← hnext]
      unfold adoptFragSize
      split_ifs <;> rfl
    · cases heq
  · cases heq
    rw [sizeBlast_nextFragnum, ← hnext]
    rfl

/-! ### What the sender keeps -/

/-- The elements of the queue are in the order in which they were allocated and carry their number,
and what is unsent is behind all that was sent. -/
structure Ordered (s : State) : Prop extends Inv s where
  numbers : ∀ k ∈ keys s.xq.queue, k.2 = BitVec.ofNat 16 k.1
  next : s.xq.nextFragnum = BitVec.ofNat 16 s.allocated
  sorted : (ptrs s.xq.queue).Pairwise (· < ·)
  ahead : ∀ p, s.sent p = true → ∀ q ∈ ptrs (unsentPart s.xq.firstUnsent s.xq.queue), p < q

theorem ordered_reinit (xq : Xmitq) : Ordered (reinit xq) where
  toInv := inv_reinit xq
  numbers := fun _ hk => absurd hk List.not_mem_nil
  next := rfl
  sorted := List.Pairwise.nil
  ahead := fun _ hp => absurd hp Bool.false_ne_true

/-- What was sent was allocated. -/
theorem Inv.sent_lt (h : Inv s) {p : ℕ} (hp : s.sent p = true) : p < s.allocated := by
  by_contra hge
  rw [h.fresh p (not_lt.mp hge)] at hp
  exact Bool.false_ne_true hp

/-- A routine that leaves the order of the queue alone. -/
theorem Ordered.of_keys (h : Ordered s) (hinv : Inv s') (hkeys : keys s'.xq.queue = keys s.xq.queue)
    (hnext : s'.xq.nextFragnum = s.xq.nextFragnum) (hallocated : s'.allocated = s.allocated)
    (hahead : ∀ p, s'.sent p = true →
      ∀ q ∈ ptrs (unsentPart s'.xq.firstUnsent s'.xq.queue), p < q) : Ordered s' where
  toInv := hinv
  numbers := hkeys ▸ h.numbers
  next := by rw [hnext, hallocated]; exact h.next
  sorted := ptrs_of_keys hkeys ▸ h.sorted
  ahead := hahead

/-- The same, where nothing is sent. -/
theorem Ordered.of_frame (h : Ordered s) {xq : Xmitq} (hinv : Inv { s with xq := xq })
    (hkeys : keys xq.queue = keys s.xq.queue) (hnext : xq.nextFragnum = s.xq.nextFragnum)
    (hfirst : xq.firstUnsent = s.xq.firstUnsent) : Ordered { s with xq := xq } := by
  refine h.of_keys hinv hkeys hnext rfl ?_
  dsimp only
  rw [hfirst, (parts_congr h.nodup h.onQueue (ptrs_of_keys hkeys)).2]
  exact h.ahead

theorem ordered_append (h : Ordered s) {push : Bool} (hstep : append s push = some s') :
    Ordered s' ∧ keys s'.xq.queue = keys s.xq.queue ++ [(s.allocated, s.xq.nextFragnum)] ∧
      s'.allocated = s.allocated + 1 ∧ s'.sent = s.sent := by
  have hinv := inv_append h.toInv hstep
  rw [append_spec h.toInv] at hstep
  cases hstep
  have hkeys : keys (s.xq.queue ++ [{ ptr := s.allocated, fragnum := s.xq.nextFragnum }]) =
      keys s.xq.queue ++ [(s.allocated, s.xq.nextFragnum)] := keys_append _ _
  have hq : ptrs (s.xq.queue ++ [{ ptr := s.allocated, fragnum := s.xq.nextFragnum }]) =
      ptrs (sentPart s.xq.firstUnsent s.xq.queue) ++
        (ptrs (unsentPart s.xq.firstUnsent s.xq.queue) ++ [s.allocated]) := by
    rw [ptrs_append, ← List.append_assoc, ← ptrs_parts]
    rfl
  refine ⟨⟨hinv, ?_, ?_, ?_, ?_⟩, hkeys, rfl, rfl⟩
  · rw [hkeys]
    intro k hk
    rcases List.mem_append.mp hk with hk | hk
    · exact h.numbers k hk
    · rw [List.mem_singleton.mp hk]
      exact h.next
  · dsimp only
    rw [h.next]
    exact ofNat_succ _
  · rw [ptrs_append]
    refine List.pairwise_append.mpr ⟨h.sorted, List.pairwise_singleton _ _, fun p hp q hq => ?_⟩
    rw [List.mem_singleton.mp hq]
    exact h.below p hp
  · dsimp only
    rw [(ptrs_split hq (hq ▸ hinv.nodup)).2]
    intro p hp q hq
    rcases List.mem_append.mp hq with hq | hq
    · exact h.ahead p hp q hq
    · rw [List.mem_singleton.mp hq]
      exact h.sent_lt hp

theorem ordered_timer (h : Ordered s) : Ordered { s with xq := xmitqTimer s.xq } ∧
    keys (xmitqTimer s.xq).queue = keys s.xq.queue := by
  have hframe : keys (xmitqTimer s.xq).queue = keys s.xq.queue ∧
      (xmitqTimer s.xq).nextFragnum = s.xq.nextFragnum ∧
      (xmitqTimer s.xq).firstUnsent = s.xq.firstUnsent := by
    unfold xmitqTimer outOfWindow
    split
    · exact ⟨rfl, rfl, rfl⟩
    · rename_i hqueue
      rw [hqueue]
      split_ifs <;> exact ⟨rfl, rfl, rfl⟩
  exact ⟨h.of_frame (inv_timer h.toInv) hframe.1 hframe.2.1 hframe.2.2, hframe.1⟩

theorem ordered_restart (h : Ordered s) : Ordered { s with xq := xmitqRestart s.xq } ∧
    keys (xmitqRestart s.xq).queue = keys s.xq.queue := by
  have hframe : keys (xmitqRestart s.xq).queue = keys s.xq.queue ∧
      (xmitqRestart s.xq).nextFragnum = s.xq.nextFragnum ∧
      (xmitqRestart s.xq).firstUnsent = s.xq.firstUnsent := by
    unfold xmitqRestart
    split
    · exact ⟨rfl, rfl, rfl⟩
    · obtain ⟨hfirst, hnext⟩ := outOfWindow_foldl_frame (sentPart s.xq.firstUnsent s.xq.queue) s.xq
      refine ⟨?_, hnext, hfirst⟩
      dsimp only
      rw [keys_append, keys_map (f := fun xqe => { xqe with inCwindow := false }) (fun _ => rfl)
        (fun _ => rfl), ← keys_append]
      exact congrArg keys List.takeWhile_append_dropWhile
  exact ⟨h.of_frame (inv_restart h.toInv) hframe.1 hframe.2.1 hframe.2.2, hframe.1⟩

/-- A blast sends the first ones of the unsent elements. -/
theorem ordered_callXmit (h : Ordered s) (hfits : Fits s .callXmit)
    (hstep : step s .callXmit = some s') :
    Ordered s' ∧ keys s'.xq.queue = keys s.xq.queue ∧ s'.allocated = s.allocated ∧
      ∀ p, s.sent p = true → s'.sent p = true := by
  have hinv := inv_callXmit h.toInv hfits hstep
  obtain ⟨xq, high, hblast, -, hptrs, hfirst, heq⟩ := callXmit_spec h.toInv
  obtain rfl := Option.some_inj.mp hstep
  obtain ⟨hkeys, hnext⟩ := xmitLoop_keys s.xq.blastSize.toNat (extraFack s.xq)
    s.xq.blastSize.toNat 1 s.xq.rexmitq (ptrs (unsentPart s.xq.firstUnsent s.xq.queue)) s.xq
  refine ⟨h.of_keys hinv hkeys hnext rfl ?_, hkeys, rfl, fun p hp => ?_⟩
  · dsimp only
    rw [heq]
    dsimp only
    have hq : ptrs xq.queue = (ptrs (sentPart s.xq.firstUnsent s.xq.queue) ++
        (ptrs (unsentPart s.xq.firstUnsent s.xq.queue)).take
          (s.xq.blastSize.toNat - s.xq.rexmitq.length)) ++
        (ptrs (unsentPart s.xq.firstUnsent s.xq.queue)).drop
          (s.xq.blastSize.toNat - s.xq.rexmitq.length) := by
      rw [hblast.ptrs, List.append_assoc, List.take_append_drop, ← ptrs_parts]
    rw [hfirst, (ptrs_split hq (hq ▸ hblast.ptrs ▸ h.nodup)).2]
    intro p hp q hq'
    rcases Bool.or_eq_true_iff.mp hp with hp | hp
    · exact h.ahead p hp q (List.mem_of_mem_drop hq')
    · obtain ⟨sent, hsent, hptr⟩ := List.any_eq_true.mp hp
      have hmem : p ∈ went s.xq := by
        rw [← hptrs, ← of_decide_eq_true hptr]
        exact List.mem_map_of_mem hsent
      rw [went_eq] at hmem
      rcases List.mem_append.mp hmem with hmem | hmem
      · have hagain := h.again p (List.mem_of_mem_take hmem)
        exact h.ahead p (h.sent p hagain) q (List.mem_of_mem_drop hq')
      · -- both are unsent, and the queue is sorted
        have hsorted := h.sorted
        rw [ptrs_parts s.xq.firstUnsent s.xq.queue, ← List.take_append_drop
          (s.xq.blastSize.toNat - s.xq.rexmitq.length)
          (ptrs (unsentPart s.xq.firstUnsent s.xq.queue))] at hsorted
        have hrest := (List.pairwise_append.mp hsorted).2.1
        exact (List.pairwise_append.mp hrest).2.2 p hmem q hq'
  · exact Bool.or_eq_true_iff.mpr (.inl hp)

/-- What the routines but that for facks keep: an element that is not on the queue afterwards was
not there before. -/
theorem step_ordered (h : Ordered s) {e : Event} (hfack : ∀ resvs pkt, e ≠ .fack resvs pkt)
    (hfits : Fits s e) : ∃ s', step s e = some s' ∧ Ordered s' ∧ s.allocated ≤ s'.allocated ∧
      (∀ p, s.sent p = true → s'.sent p = true) ∧
      ∀ p < s'.allocated, p ∉ ptrs s'.xq.queue → p < s.allocated ∧ p ∉ ptrs s.xq.queue := by
  have hsame : ∀ {queue : List XmitqElt}, keys queue = keys s.xq.queue → ∀ p < s.allocated,
      p ∉ ptrs queue → p < s.allocated ∧ p ∉ ptrs s.xq.queue := fun hkeys p hp hnot =>
    ⟨hp, ptrs_of_keys hkeys ▸ hnot⟩
  cases e with
  | append push =>
    have hs' := append_spec h.toInv push
    obtain ⟨hord, hkeys, hallocated, hsent⟩ := ordered_append h hs'
    refine ⟨_, hs', hord, ?_, fun p hp => hsent ▸ hp, fun p hp hnot => ?_⟩
    · exact hallocated ▸ Nat.le_succ _
    · rw [← keys_fst, hkeys, List.map_append, keys_fst, List.mem_append, not_or] at hnot
      refine ⟨?_, hnot.1⟩
      have hne : p ≠ s.allocated := fun heq => hnot.2 (List.mem_singleton.mpr heq)
      rw [hallocated] at hp
      omega
  | ready blast =>
    obtain ⟨s', hs', hinv, -⟩ := (step_spec h.toInv (.ready blast)).1 trivial
    obtain rfl := Option.some_inj.mp hs'
    exact ⟨_, rfl, h.of_frame hinv rfl rfl rfl, le_rfl, fun _ hp => hp, hsame rfl⟩
  | callXmit =>
    obtain ⟨hord, hkeys, -, hsent⟩ := ordered_callXmit h hfits rfl
    exact ⟨_, rfl, hord, le_rfl, hsent, hsame hkeys⟩
  | timer => exact ⟨_, rfl, (ordered_timer h).1, le_rfl, fun _ hp => hp, hsame (ordered_timer h).2⟩
  | restart =>
    exact ⟨_, rfl, (ordered_restart h).1, le_rfl, fun _ hp => hp, hsame (ordered_restart h).2⟩
  | fack resvs pkt => exact absurd rfl (hfack resvs pkt)

/-! ### A fack -/

theorem num_of_mem_upTo {lo hi : ℕ} {x : XmitqElt} (h : x ∈ Climb.upTo XmitqElt.num lo hi queue) :
    lo ≤ x.num ∧ x.num < hi := by
  induction queue generalizing lo with
  | nil => cases h
  | cons y rest ih =>
    rw [Climb.upTo] at h
    split at h
    · rename_i hbounds
      rcases List.mem_cons.mp h with rfl | h
      · exact hbounds
      · have := ih h
        omega
    · cases h

/-- The fack acknowledges the element: by its header, or by a bit that the cursor meets it at. -/
def Named (pkt : FackPkt) (xqe : XmitqElt) : Prop :=
  Serial.Le xqe.fragnum pkt.fragnum ∨
    ∃ k, xqe.num = pkt.fragnum.toNat + 1 + k ∧ k / 32 < pkt.numWords ∧
      selackBit pkt.words k = true

theorem scannedBits_le (words : ℕ → BitVec 32) (n : ℕ) : scannedBits words n ≤ 32 * n := by
  cases n with
  | zero => exact le_rfl
  | succ n =>
    rw [scannedBits]
    have := bitLength_le 32 (words n)
    omega

/-- The elements that a fack frees are named by it. -/
theorem named_of_freed (hxq : XmitqOk xq) {resvs : Resvs} {pkt : FackPkt} {r : Result}
    (hr : fackCommon resvs xq pkt = some r) {x : XmitqElt} (hx : x ∈ xq.queue)
    (hnot : x.ptr ∉ ptrs r.xq.queue) : Named pkt x := by
  by_cases hmem : x ∈ behind xq pkt.fragnum
  · rcases Nat.eq_zero_or_pos pkt.len with hlen | hlen
    · obtain ⟨r', hr', hhandled, -⟩ := fackCommon_of_bare hxq resvs hlen
      obtain rfl := Option.some_inj.mp (hr'.symm.trans hr)
      rw [hhandled.queue] at hnot
      exact absurd (List.mem_map_of_mem hmem) hnot
    · cases hmask : pkt.usingSelacks with
      | false =>
        rw [fackCommon_of_old hxq resvs hlen hmask] at hr
        cases hr
      | true =>
        obtain ⟨hon, hoff⟩ := fackCommon_of_mask hxq resvs hmask
        by_cases hun : OnQueue xq.firstUnsent (unmet xq pkt)
        · obtain ⟨r', hr', hhandled, -⟩ := hon hun
          obtain rfl := Option.some_inj.mp (hr'.symm.trans hr)
          rw [hhandled.queue, ptrs_append, List.mem_append, not_or] at hnot
          rw [← met_append_unmet, List.mem_append] at hmem
          have hmet := hmem.resolve_right fun h => hnot.2 (List.mem_map_of_mem h)
          obtain ⟨hlo, hhi⟩ := num_of_mem_upTo hmet
          have hscan := scannedBits_le pkt.words pkt.numWords
          -- an element that is met stays exactly if its bit is not set
          refine .inr ⟨x.num - (pkt.fragnum.toNat + 1), by omega, by omega, ?_⟩
          by_contra hbit
          refine hnot.1 (List.mem_map_of_mem (List.mem_filter.mpr ⟨hmet, ?_⟩))
          rw [Bool.not_eq_true] at hbit
          rw [hbit]
          rfl
        · rw [hoff hun] at hr
          cases hr
  · -- it is in front of what the header leaves
    refine .inl ?_
    have hsplit : xq.queue = (xq.queue.takeWhile fun xqe =>
        xq.firstUnsent ≠ some xqe.ptr ∧ Serial.Le xqe.fragnum pkt.fragnum) ++
        behind xq pkt.fragnum := List.takeWhile_append_dropWhile.symm
    rw [hsplit] at hx
    have htaken := List.mem_takeWhile_imp ((List.mem_append.mp hx).resolve_right hmem)
    exact (of_decide_eq_true htaken).2

/-- What the routine for facks keeps. -/
theorem fack_ordered (h : Ordered s) {resvs : Resvs} {pkt : FackPkt}
    (hstep : step s (.fack resvs pkt) = some s') :
    Ordered s' ∧ s'.allocated = s.allocated ∧ s'.sent = s.sent ∧
      ptrs s'.xq.queue ⊆ ptrs s.xq.queue ∧
      ∀ x ∈ s.xq.queue, x.ptr ∉ ptrs s'.xq.queue → Named pkt x := by
  obtain ⟨r, hr, rfl⟩ := Option.map_eq_some_iff.mp hstep
  have hok : XmitqOk s.xq := ⟨h.onQueue, h.nodup⟩
  have hfrom := fackCommon_from hok hr
  obtain ⟨stays, hhandled, hsub⟩ := fackCommon_handled hok hr
  have hptrs : (ptrs r.xq.queue).Sublist (ptrs s.xq.queue) := hhandled.queue ▸ hsub.map _
  refine ⟨⟨inv_fack h.toInv hr, fun k hk => h.numbers k (hfrom k hk), ?_,
    h.sorted.sublist hptrs, ?_⟩, rfl, rfl, hptrs.subset,
    fun x hx hnot => named_of_freed hok hr hx hnot⟩
  · exact (fackCommon_nextFragnum hok hr).trans h.next
  · dsimp only
    rw [hhandled.firstUnsent, hhandled.unsent]
    exact h.ahead

end XmitQueue

end Dg
