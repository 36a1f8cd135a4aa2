/-
What the steps of the datagram server leave alone.

`Server.tokens s n` counts what may still lead to a dispatch of call `n` and the
dispatches there were: a handle that waits for its executor, an executor that
has not taken its first packet from a handle of that call, an executor that
holds a packet of it, and the entries of the dispatch history.  `Tame s s'` says
that a step changes no sequence number and makes no tokens; every step of an
executor, the timer, acks and quits are tame (`execStep_tame`, …).
-/
import FreeDce.Dg.ServerRun
import FreeDce.Dg.RecvqShape

namespace Dg

variable {s s' s'' : Server} {e i k : ℕ} {n : BitVec 32} {hdr : PktHdr}

/-! ### Lists -/

theorem forall₂_modify {α : Type*} {R : α → α → Prop} (hrefl : ∀ a, R a a) {f : α → α} :
    ∀ {l : List α} {k : ℕ}, (∀ a, l[k]? = some a → R a (f a)) →
      List.Forall₂ R l (l.modify k f) := by
  intro l
  induction l with
  | nil => intro k _; cases k <;> exact List.Forall₂.nil
  | cons a l ih =>
    intro k h
    cases k with
    | zero => exact List.Forall₂.cons (h a rfl) (List.forall₂_same.mpr fun x _ => hrefl x)
    | succ k => exact List.Forall₂.cons (hrefl a) (ih fun b hb => h b hb)

theorem countP_le_of_forall₂ {α : Type*} {R : α → α → Prop} {p q : α → Bool}
    (hR : ∀ a b, R a b → q b = true → p a = true) {l l' : List α} (h : List.Forall₂ R l l') :
    l'.countP q ≤ l.countP p := by
  induction h with
  | nil => exact le_rfl
  | @cons a b l l' hab _ ih =>
    rw [List.countP_cons, List.countP_cons]
    by_cases hq : q b = true
    · rw [if_pos hq, if_pos (hR a b hab hq)]
      omega
    · rw [if_neg hq]
      omega

theorem countP_modify {α : Type*} {p : α → Bool} {f : α → α} : ∀ {l : List α} {k : ℕ} {a : α},
    l[k]? = some a → (l.modify k f).countP p + (if p a then 1 else 0)
      = l.countP p + (if p (f a) then 1 else 0) := by
  intro l
  induction l with
  | nil => intro k a h; simp at h
  | cons x l ih =>
    intro k a h
    cases k with
    | zero =>
      obtain rfl : x = a := by simpa using h
      simp only [List.modify_zero_cons, List.countP_cons]
      omega
    | succ k =>
      have hrest := ih (k := k) (a := a) (by simpa using h)
      simp only [List.modify_succ_cons, List.countP_cons]
      omega

theorem forall₂_getElem?_map {α β : Type*} {R : α → α → Prop} {f : α → β}
    (hR : ∀ a b, R a b → f b = f a) {l l' : List α} (h : List.Forall₂ R l l') (k : ℕ) :
    (l'[k]?).map f = (l[k]?).map f := by
  induction h generalizing k with
  | nil => rfl
  | cons hab _ ih =>
    cases k with
    | zero => simp [hR _ _ hab]
    | succ k => simpa using ih k

/-! ### Headers on a queue -/

/-- The headers of the fragments on a queue. -/
def Recvq.headers (rq : Recvq) : List PktHdr := rq.queue.filterMap RecvqElt.hdrp

theorem mem_headers {rq : Recvq} :
    hdr ∈ rq.headers ↔ ∃ rqe ∈ rq.queue, rqe.hdrp = some hdr := List.mem_filterMap

theorem headers_dequeue {rq : Recvq} {rqe : RecvqElt} {rest : List RecvqElt}
    (hqueue : rq.queue = rqe :: rest) (h : hdr ∈ (dequeue rq rqe rest).headers) :
    hdr ∈ rq.headers := by
  obtain ⟨x, hx, hhdr⟩ := mem_headers.mp h
  have hmem : x ∈ rest := by
    unfold dequeue at hx
    rcases hmore : rqe.moreData with _ | ⟨body, more⟩
    · rw [hmore] at hx
      exact hx
    · rw [hmore] at hx
      rcases List.mem_cons.mp hx with rfl | hx
      · simp at hhdr
      · exact hx
  exact mem_headers.mpr ⟨x, by rw [hqueue]; exact List.mem_cons_of_mem _ hmem, hhdr⟩

/-- The receive routine adds nothing to the queue, and what it shows to the caller
was on it. -/
theorem headers_callReceiveInt (status : Status) (state : CallState) (auth : AuthCheck)
    (rq : Recvq) :
    (∀ hdr ∈ (callReceiveInt status state auth rq).1.headers, hdr ∈ rq.headers) ∧
      ∀ iove, ((callReceiveInt status state auth rq).2 = .needWayAuth iove ∨
        ∃ fack, (callReceiveInt status state auth rq).2 = .data iove fack) →
        ∀ hdr, iove.hdrp = some hdr → hdr ∈ rq.headers := by
  have hshown : ∀ rqe rest, rq.queue = rqe :: rest → ∀ hdr,
      (recvqIovectorSetup rqe).hdrp = some hdr → hdr ∈ rq.headers := by
    intro rqe rest hqueue hdr hhdr
    exact mem_headers.mpr ⟨rqe, by rw [hqueue]; exact List.mem_cons_self, hhdr⟩
  unfold callReceiveInt
  split_ifs
  · exact ⟨fun _ h => h, fun iove h => by simp at h⟩
  · refine ⟨fun hdr h => ?_, fun iove h => by simp at h⟩
    simp [recvqFree, Recvq.headers] at h
  · exact ⟨fun _ h => h, fun iove h => by simp at h⟩
  · exact ⟨fun _ h => h, fun iove h => by simp at h⟩
  · rcases hqueue : rq.queue with _ | ⟨rqe, rest⟩
    · exact ⟨fun _ h => h, fun iove h => by simp at h⟩
    · dsimp only
      split
      · refine ⟨fun _ h => h, fun iove h hdr hhdr => ?_⟩
        obtain rfl : recvqIovectorSetup rqe = iove := by simpa using h
        exact hshown rqe rest hqueue hdr hhdr
      · exact ⟨fun _ h => h, fun iove h => by simp at h⟩
      · refine ⟨fun hdr h => headers_dequeue hqueue h, fun iove h hdr hhdr => ?_⟩
        obtain rfl : recvqIovectorSetup rqe = iove := by
          rcases h with h | ⟨fack, h⟩
          · simp at h
          · simp only [Receive.data.injEq] at h
            exact h.1
        exact hshown rqe rest hqueue hdr hhdr

/-- Insertion adds at most the packet. -/
theorem headers_callRecvqInsert {env : CallEnv} {rq : Recvq} {pkt : Pkt}
    (h : hdr ∈ (callRecvqInsert env rq pkt).rq.headers) : hdr ∈ rq.headers ∨ hdr = pkt.hdr := by
  have hsame := (noteArrival_sameQueue env rq pkt).queue
  obtain ⟨rqe, hmem, hhdr⟩ := mem_headers.mp h
  have hin : rqe = pkt.elt ∨ rqe ∈ rq.queue := by
    unfold callRecvqInsert at hmem
    dsimp only at hmem
    rcases henq : enqueue env (noteArrival env rq pkt) pkt with _ | rq'
    · rw [henq] at hmem
      exact .inr (by rw [← hsame]; exact hmem)
    · rw [henq] at hmem
      have hmem : rqe ∈ (noteAccepted rq' pkt).queue := hmem
      obtain ⟨pos, hqueue⟩ := enqueue_queue henq
      rw [noteAccepted_queue, hqueue] at hmem
      rw [← hsame]
      rcases List.mem_append.mp hmem with hm | hm
      · exact .inr (List.mem_of_mem_take hm)
      · rcases List.mem_cons.mp hm with hm | hm
        · exact .inl hm
        · exact .inr (List.mem_of_mem_drop hm)
  rcases hin with rfl | hin
  · right
    simpa [Pkt.elt] using hhdr.symm
  · exact .inl (mem_headers.mpr ⟨rqe, hin, hhdr⟩)

/-! ### Tokens -/

/-- The executor has not taken its first packet. -/
def ExecPc.waiting : ExecPc → Bool
  | .queued | .start | .resv | .receive => true
  | _ => false

/-- The packet that the executor took and has not dispatched. -/
def ExecPc.held : ExecPc → Option PktHdr
  | .wayLock hdr _ | .wayCall hdr _ _ | .wayDone hdr _ _ => some hdr
  | _ => none

/-- The call that each handle is for. -/
def Server.seqOf (s : Server) (k : ℕ) : Option (BitVec 32) := (s.scalls[k]?).map Scall.callSeq

/-- The executor may still dispatch call `n`. -/
def Executor.mayRun (seqOf : ℕ → Option (BitVec 32)) (n : BitVec 32) (ex : Executor) : Bool :=
  (ex.pc.waiting ∧ seqOf ex.scall = some n) ∨ ex.pc.held.map PktHdr.seq = some n

/-- The handle may still get an executor for call `n`. -/
def Scall.mayRun (n : BitVec 32) (sc : Scall) : Bool := sc.callIsSetup = false ∧ sc.callSeq = n

def Server.tokens (s : Server) (n : BitVec 32) : ℕ :=
  s.scalls.countP (Scall.mayRun n) + s.execs.countP (Executor.mayRun s.seqOf n) +
    (s.dispatched.map PktHdr.seq).count n

/-- What a step may do to a call handle. -/
structure ScallLe (sc sc' : Scall) : Prop where
  callSeq : sc'.callSeq = sc.callSeq
  callIsSetup : sc'.callIsSetup = false → sc.callIsSetup = false
  headers : ∀ hdr ∈ sc'.rq.headers, hdr ∈ sc.rq.headers ∨ hdr.seq = sc.callSeq

theorem ScallLe.refl (sc : Scall) : ScallLe sc sc := ⟨rfl, id, fun _ h => .inl h⟩

theorem ScallLe.trans {a b c : Scall} (hab : ScallLe a b) (hbc : ScallLe b c) : ScallLe a c where
  callSeq := hbc.callSeq.trans hab.callSeq
  callIsSetup h := hab.callIsSetup (hbc.callIsSetup h)
  headers hdr h := by
    rcases hbc.headers hdr h with h | h
    · exact hab.headers hdr h
    · exact .inr (h.trans hab.callSeq)

/-- A step that leaves the handle with its connection. -/
structure ScallKeep (sc sc' : Scall) : Prop extends ScallLe sc sc' where
  scte : sc'.scte = sc.scte

theorem ScallKeep.refl (sc : Scall) : ScallKeep sc sc := ⟨ScallLe.refl sc, rfl⟩

/-- A change of the fields that nothing below looks at. -/
theorem ScallKeep.of_eq {sc sc' : Scall} (hseq : sc'.callSeq = sc.callSeq)
    (hsetup : sc'.callIsSetup = sc.callIsSetup) (hrq : sc'.rq.queue = sc.rq.queue)
    (hscte : sc'.scte = sc.scte) : ScallKeep sc sc' :=
  ⟨⟨hseq, fun h => by rwa [← hsetup], fun hdr h => .inl (by rwa [Recvq.headers, ← hrq])⟩, hscte⟩

/-- The part of a connection entry that says which calls are new. -/
def SctElt.key (scte : SctElt) : ℕ × BitVec 32 := (scte.ahint, scte.highSeq)

/-- The handles of a connection: the cached one and those on the maybe chain. -/
def SctElt.handles (scte : SctElt) : List ℕ := scte.scall.toList ++ scte.maybeChain

/-- The handles of a connection point back to it, and each is there once. -/
structure Server.Linked (s : Server) : Prop where
  scte : ∀ i scte, s.sct[i]? = some scte →
    ∀ k ∈ scte.handles, (s.scalls[k]?).bind Scall.scte = some i
  nodup : ∀ scte ∈ s.sct, scte.handles.Nodup

/-- Every executor belongs to a handle. -/
def Server.Valid (s : Server) : Prop := ∀ ex ∈ s.execs, ex.scall < s.scalls.length

/-- A step that makes no tokens. -/
structure Quiet (s s' : Server) : Prop where
  scalls : List.Forall₂ ScallLe s.scalls s'.scalls
  valid : s.Valid → s'.Valid
  tokens : ∀ n, s'.tokens n ≤ s.tokens n

/-- A step that makes no tokens and changes no sequence number of the connection. -/
structure Tame (s s' : Server) : Prop extends Quiet s s' where
  linked : s.Linked → s'.Linked
  sct : s'.sct.map SctElt.key = s.sct.map SctElt.key
  accepted : s'.accepted = s.accepted

theorem scallLe_refl (s : Server) : List.Forall₂ ScallLe s.scalls s.scalls :=
  List.forall₂_same.mpr fun sc _ => ScallLe.refl sc

theorem Quiet.trans (h : Quiet s s') (h' : Quiet s' s'') : Quiet s s'' where
  scalls := by
    refine List.forall₂_iff_get.mpr ⟨h.scalls.length_eq.trans h'.scalls.length_eq, ?_⟩
    intro i hi hi'
    have hmid : i < s'.scalls.length := by rw [← h.scalls.length_eq]; exact hi
    exact (h.scalls.get hi hmid).trans (h'.scalls.get hmid hi')
  valid hv := h'.valid (h.valid hv)
  tokens n := (h'.tokens n).trans (h.tokens n)

theorem Tame.refl (s : Server) : Tame s s where
  scalls := scallLe_refl s
  valid := id
  tokens _ := le_rfl
  linked := id
  sct := rfl
  accepted := rfl

theorem Tame.trans (h : Tame s s') (h' : Tame s' s'') : Tame s s'' where
  toQuiet := h.toQuiet.trans h'.toQuiet
  linked hl := h'.linked (h.linked hl)
  sct := h'.sct.trans h.sct
  accepted := h'.accepted.trans h.accepted

theorem seqOf_eq_of_forall₂ (h : List.Forall₂ ScallLe s.scalls s'.scalls) :
    s'.seqOf = s.seqOf := by
  funext k
  exact forall₂_getElem?_map (fun _ _ hab => hab.callSeq) h k

theorem Quiet.seqOf (h : Quiet s s') : s'.seqOf = s.seqOf := seqOf_eq_of_forall₂ h.scalls

/-! ### Tame updates -/

/-- Only what the connections hold and where the handles point to matters. -/
theorem Server.Linked.of_eq (hl : s.Linked)
    (hscte : ∀ (i : ℕ) (scte' : SctElt), s'.sct[i]? = some scte' →
      ∃ scte, s.sct[i]? = some scte ∧ scte'.handles = scte.handles)
    (hscalls : ∀ k : ℕ, (s'.scalls[k]?).bind Scall.scte = (s.scalls[k]?).bind Scall.scte) :
    s'.Linked where
  scte i scte' hscte' k hk := by
    obtain ⟨scte, hscte, hsame⟩ := hscte i scte' hscte'
    rw [hscalls]
    rw [hsame] at hk
    exact hl.scte i scte hscte k hk
  nodup scte' hmem := by
    obtain ⟨i, hi⟩ := List.mem_iff_getElem?.mp hmem
    obtain ⟨scte, hscte, hsame⟩ := hscte i scte' hi
    rw [hsame]
    exact hl.nodup scte (List.mem_of_getElem? hscte)

theorem getElem?_updScte {f : SctElt → SctElt} {j : ℕ} {scte' : SctElt}
    (h : (s.updScte i f).sct[j]? = some scte') :
    ∃ scte, s.sct[j]? = some scte ∧ scte' = if i = j then f scte else scte := by
  rw [Server.updScte, List.getElem?_modify, Option.map_eq_map, Option.map_eq_some_iff] at h
  obtain ⟨scte, hscte, rfl⟩ := h
  exact ⟨scte, hscte, rfl⟩

theorem getElem?_updScall {f : Scall → Scall} {j : ℕ} {sc' : Scall}
    (h : (s.updScall k f).scalls[j]? = some sc') :
    ∃ sc, s.scalls[j]? = some sc ∧ sc' = if k = j then f sc else sc := by
  rw [Server.updScall, List.getElem?_modify, Option.map_eq_map, Option.map_eq_some_iff] at h
  obtain ⟨sc, hsc, rfl⟩ := h
  exact ⟨sc, hsc, rfl⟩

theorem linked_updScte {f : SctElt → SctElt} (hf : ∀ scte, (f scte).handles = scte.handles)
    (hl : s.Linked) : (s.updScte i f).Linked := by
  refine hl.of_eq (fun j scte' h => ?_) fun k => rfl
  obtain ⟨scte, hscte, rfl⟩ := getElem?_updScte h
  refine ⟨scte, hscte, ?_⟩
  split
  · exact hf scte
  · rfl

theorem linked_updScall {f : Scall → Scall}
    (hf : ∀ sc, s.scalls[k]? = some sc → (f sc).scte = sc.scte) (hl : s.Linked) :
    (s.updScall k f).Linked := by
  refine hl.of_eq (fun j scte' h => ⟨scte', h, rfl⟩) fun j => ?_
  rw [Server.updScall, List.getElem?_modify]
  rcases hsc : s.scalls[j]? with _ | sc
  · rfl
  · by_cases hkj : k = j
    · simp [hkj, hf sc (by rw [hkj]; exact hsc)]
    · simp [hkj]

theorem keys_updScte {f : SctElt → SctElt} (hf : ∀ scte, (f scte).key = scte.key) :
    (s.updScte i f).sct.map SctElt.key = s.sct.map SctElt.key := by
  refine List.ext_getElem? fun j => ?_
  rw [Server.updScte, List.getElem?_map, List.getElem?_map, List.getElem?_modify]
  rcases s.sct[j]? with _ | scte
  · simp
  · by_cases hij : i = j
    · simp [hij, hf]
    · simp [hij]

theorem tame_updScte {f : SctElt → SctElt} (hf : ∀ scte, (f scte).key = scte.key)
    (hhandles : ∀ scte, (f scte).handles = scte.handles) : Tame s (s.updScte i f) where
  sct := keys_updScte hf
  scalls := scallLe_refl s
  valid := id
  tokens _ := le_rfl
  linked := linked_updScte hhandles
  accepted := rfl

theorem quiet_updScall {f : Scall → Scall}
    (hf : ∀ sc, s.scalls[k]? = some sc → ScallLe sc (f sc)) : Quiet s (s.updScall k f) := by
  have hscalls : List.Forall₂ ScallLe s.scalls (s.updScall k f).scalls :=
    forall₂_modify ScallLe.refl hf
  refine ⟨hscalls, ?_, fun n => ?_⟩
  · intro hv ex hex
    rw [← hscalls.length_eq]
    exact hv ex hex
  · have hseq := seqOf_eq_of_forall₂ hscalls
    have hcount := countP_le_of_forall₂ (p := Scall.mayRun n) (q := Scall.mayRun n)
      (fun a b hab hb => by
        simp only [Scall.mayRun, decide_eq_true_eq] at hb ⊢
        exact ⟨hab.callIsSetup hb.1, hab.callSeq.symm.trans hb.2⟩) hscalls
    rw [Server.tokens, Server.tokens, hseq]
    exact Nat.add_le_add_right (Nat.add_le_add_right hcount _) _

theorem tame_updScall {f : Scall → Scall}
    (hf : ∀ sc, s.scalls[k]? = some sc → ScallKeep sc (f sc)) : Tame s (s.updScall k f) where
  toQuiet := quiet_updScall fun sc hsc => (hf sc hsc).toScallLe
  linked := linked_updScall fun sc hsc => (hf sc hsc).scte
  sct := rfl
  accepted := rfl

/-- Letting a handle go takes it out of its connection. -/
theorem handles_release (scte : SctElt) :
    (releaseScallFromScte k scte).handles = scte.handles.erase k := by
  unfold releaseScallFromScte SctElt.handles at *
  split
  · next hk => rw [hk, Option.toList_some, List.singleton_append, List.erase_cons_head]; rfl
  · next hk =>
    rw [List.erase_append_right]
    rwa [Option.mem_toList]

theorem release_key (scte : SctElt) : (releaseScallFromScte k scte).key = scte.key := by
  unfold releaseScallFromScte
  split <;> rfl

/-- A handle leaves its connection. -/
theorem tame_unlink {f : Scall → Scall} {sc : Scall} (hsc : s.scalls[k]? = some sc)
    (hscte : sc.scte = some i) (hf : ∀ sc, ScallLe sc (f sc)) :
    Tame s ((s.updScte i (releaseScallFromScte k)).updScall k f) where
  toQuiet :=
    let hrelease : Quiet s (s.updScte i (releaseScallFromScte k)) :=
      ⟨scallLe_refl s, id, fun _ => le_rfl⟩
    hrelease.trans (quiet_updScall fun sc _ => hf sc)
  sct := keys_updScte release_key
  accepted := rfl
  linked hl := by
    have hmem : ∀ (j : ℕ) (scte' : SctElt), (s.updScte i (releaseScallFromScte k)).sct[j]? = some scte' →
        ∃ scte, s.sct[j]? = some scte ∧ scte'.handles.Sublist scte.handles ∧
          k ∉ scte'.handles := by
      intro j scte' h
      obtain ⟨scte, hscte', rfl⟩ := getElem?_updScte h
      have hnodup := hl.nodup scte (List.mem_of_getElem? hscte')
      refine ⟨scte, hscte', ?_⟩
      split
      · rw [handles_release]
        exact ⟨List.erase_sublist, hnodup.not_mem_erase⟩
      · next hij =>
        refine ⟨List.Sublist.refl _, fun hk => hij ?_⟩
        have hback := hl.scte j scte hscte' k hk
        rw [hsc, Option.bind_some, hscte] at hback
        exact Option.some_inj.mp hback
    refine ⟨fun j scte' h k' hk' => ?_, fun scte' h => ?_⟩
    · obtain ⟨scte, hscte', hsub, hnot⟩ := hmem j scte' h
      have hne : ¬ k = k' := fun heq => hnot (heq ▸ hk')
      have hback := hl.scte j scte hscte' k' (hsub.subset hk')
      rw [Server.updScall, List.getElem?_modify]
      simp only [hne, if_false, Option.map_eq_map, Option.map_id']
      exact hback
    · obtain ⟨j, hj⟩ := List.mem_iff_getElem?.mp h
      obtain ⟨scte, hscte', hsub, -⟩ := hmem j scte' hj
      exact (hl.nodup scte (List.mem_of_getElem? hscte')).sublist hsub

theorem tame_setPc {pc : ExecPc} {ex : Executor} (hex : s.execs[e]? = some ex)
    (hrun : ∀ n, Executor.mayRun s.seqOf n { ex with pc := pc } = true →
      ex.mayRun s.seqOf n = true) : Tame s (s.setPc e pc) where
  sct := rfl
  scalls := scallLe_refl s
  valid hv := by
    intro ex' hex'
    obtain ⟨j, hj⟩ := List.mem_iff_getElem?.mp hex'
    rw [Server.setPc, List.getElem?_modify] at hj
    rcases hj' : s.execs[j]? with _ | ex''
    · rw [hj'] at hj
      simp at hj
    · rw [hj'] at hj
      have hlt := hv ex'' (List.mem_iff_getElem?.mpr ⟨j, hj'⟩)
      by_cases hej : e = j
      · simp only [hej, if_true, Option.map_eq_map, Option.map_some, Option.some_inj] at hj
        rw [← hj]
        exact hlt
      · simp only [hej, if_false, Option.map_eq_map, Option.map_some, Option.some_inj] at hj
        rw [← hj]
        exact hlt
  tokens n := by
    have hcount := countP_modify (p := Executor.mayRun s.seqOf n)
      (f := fun ex => { ex with pc := pc }) hex
    have hseq : (s.setPc e pc).seqOf = s.seqOf := rfl
    have hle : (s.setPc e pc).execs.countP (Executor.mayRun s.seqOf n)
        ≤ s.execs.countP (Executor.mayRun s.seqOf n) := by
      change (s.execs.modify e fun ex => { ex with pc := pc }).countP _ ≤ _
      by_cases hnew : Executor.mayRun s.seqOf n { ex with pc := pc } = true
      · rw [if_pos (hrun n hnew), if_pos hnew] at hcount
        omega
      · rw [if_neg hnew] at hcount
        omega
    rw [Server.tokens, Server.tokens, hseq]
    exact Nat.add_le_add_right (Nat.add_le_add_left hle _) _
  linked := fun hl => ⟨hl.scte, hl.nodup⟩
  accepted := rfl

/-- A place from which nothing is dispatched. -/
def ExecPc.spent (pc : ExecPc) : Prop := pc.waiting = false ∧ pc.held = none

theorem Executor.mayRun_spent {ex : Executor} {seqOf : ℕ → Option (BitVec 32)}
    (h : ex.pc.spent) : ex.mayRun seqOf n = false := by
  simp [Executor.mayRun, h.1, h.2]

theorem tame_setPc_spent {pc : ExecPc} (h : pc.spent) : Tame s (s.setPc e pc) := by
  rcases hex : s.execs[e]? with _ | ex
  · have hself : s.setPc e pc = s := by
      rw [Server.setPc, List.modify_eq_self (List.getElem?_eq_none_iff.mp hex)]
    rw [hself]
    exact Tame.refl s
  · refine tame_setPc hex fun n hn => ?_
    rw [Executor.mayRun_spent (by exact h)] at hn
    simp at hn

/-- Going on without having taken a packet. -/
theorem tame_setPc_waiting {pc : ExecPc} {ex : Executor} (hex : s.execs[e]? = some ex)
    (hwait : ex.pc.waiting = true) (hpc : pc.held = none) : Tame s (s.setPc e pc) := by
  refine tame_setPc hex fun n hn => ?_
  simp only [Executor.mayRun, hpc, Option.map_none, reduceCtorEq, or_false, decide_eq_true_eq,
    hwait, true_and] at hn ⊢
  exact .inl hn.2

/-- Keeping the packet that was taken, or that of the executor's call. -/
theorem tame_setPc_held {pc : ExecPc} {ex : Executor} (hex : s.execs[e]? = some ex)
    (hrun : ex.mayRun s.seqOf hdr.seq = true) (hpc : pc.waiting = false)
    (hheld : pc.held = some hdr) : Tame s (s.setPc e pc) := by
  refine tame_setPc hex fun n hn => ?_
  simp only [Executor.mayRun, hpc, hheld, Bool.false_eq_true, false_and, Option.map_some,
    Option.some_inj, false_or, decide_eq_true_eq] at hn
  rw [← hn]
  exact hrun

theorem tame_cthreadDequeue : Tame s (cthreadDequeue s k) where
  scalls := scallLe_refl s
  valid hv := by
    intro ex hex
    obtain ⟨ex', hmem, rfl⟩ := List.mem_map.mp hex
    have hlt := hv ex' hmem
    split <;> exact hlt
  tokens n := by
    have hle : (cthreadDequeue s k).execs.countP (Executor.mayRun s.seqOf n)
        ≤ s.execs.countP (Executor.mayRun s.seqOf n) := by
      rw [cthreadDequeue, List.countP_map]
      refine List.countP_mono_left fun ex _ hex => ?_
      dsimp only [Function.comp] at hex
      split at hex
      · rw [Executor.mayRun_spent ⟨rfl, rfl⟩] at hex
        simp at hex
      · exact hex
    exact Nat.add_le_add_right (Nat.add_le_add_left hle _) _
  linked := fun hl => ⟨hl.scte, hl.nodup⟩
  sct := rfl
  accepted := rfl

/-- The token of an executor that dispatches moves to the history. -/
theorem tame_dispatch {ex : Executor} (hex : s.execs[e]? = some ex)
    (hrun : ex.mayRun s.seqOf hdr.seq = true) : Tame s (dispatch s e k hdr) := by
  have hscall : Tame s (s.updScall k fun sc =>
      { sc with rq := { sc.rq with isWayValidated := true } }) :=
    tame_updScall fun sc _ => ScallKeep.of_eq rfl rfl rfl rfl
  refine hscall.trans ?_
  unfold dispatch
  dsimp only
  set t := s.updScall k fun sc => { sc with rq := { sc.rq with isWayValidated := true } } with ht
  have hex' : t.execs[e]? = some ex := hex
  have hrun' : ex.mayRun t.seqOf hdr.seq = true := by rw [hscall.seqOf]; exact hrun
  have hpc : Tame t (t.setPc e (.stub hdr)) := tame_setPc_spent ⟨rfl, rfl⟩
  refine ⟨⟨hpc.scalls, hpc.valid, fun n => ?_⟩, fun hl => ⟨hl.scte, hl.nodup⟩, rfl, rfl⟩
  have hcount := countP_modify (p := Executor.mayRun t.seqOf n)
    (f := fun ex => { ex with pc := .stub hdr }) hex'
  have hstub : Executor.mayRun t.seqOf n { ex with pc := .stub hdr } = false :=
    Executor.mayRun_spent ⟨rfl, rfl⟩
  simp only [hstub, Bool.false_eq_true, if_false, add_zero] at hcount
  change (t.scalls.countP (Scall.mayRun n) +
    (t.execs.modify e fun ex => { ex with pc := .stub hdr }).countP (Executor.mayRun t.seqOf n)) +
    (hdr.seq :: t.dispatched.map PktHdr.seq).count n ≤ _
  rw [Server.tokens, List.count_cons]
  by_cases hn : hdr.seq = n
  · subst hn
    rw [if_pos hrun'] at hcount
    simp only [beq_self_eq_true, if_true]
    omega
  · have hne : (hdr.seq == n) = false := by simpa using hn
    simp only [hne, Bool.false_eq_true, if_false]
    omega

/-! ### The end of a call -/

theorem tame_endOfCall {idem sent frag : Bool} : Tame s (endOfCall s e k idem sent frag) :=
  (tame_setPc_spent ⟨rfl, rfl⟩).trans (tame_updScall fun _ _ => ScallKeep.of_eq rfl rfl rfl rfl)

theorem tame_recvqFree :
    Tame s (s.updScall k fun sc => { sc with rq := recvqFree sc.rq }) :=
  tame_updScall fun sc _ =>
    ⟨⟨rfl, id, fun hdr h => by simp [recvqFree, Recvq.headers] at h⟩, rfl⟩

theorem tame_afterCallToStub {ending : Ending} :
    Tame s (afterCallToStub s e k hdr ending) := by
  unfold afterCallToStub
  split_ifs
  · exact tame_endOfCall
  · exact tame_recvqFree.trans tame_endOfCall

/-! ### Steps of an executor -/

/-- What is on the queue of a handle belongs to its call. -/
def Server.QueueOk (s : Server) : Prop :=
  ∀ sc ∈ s.scalls, ∀ hdr ∈ sc.rq.headers, hdr.seq = sc.callSeq

theorem Quiet.queueOk (h : Quiet s s') (hq : s.QueueOk) : s'.QueueOk := by
  have hall : List.Forall₂ (fun sc sc' => sc ∈ s.scalls ∧ ScallLe sc sc') s.scalls s'.scalls :=
    (List.forall₂_and_left _ _).mpr ⟨fun _ hmem => hmem, h.scalls⟩
  intro sc' hmem' hdr hhdr
  obtain ⟨j, hj⟩ := List.mem_iff_getElem?.mp hmem'
  have hlen : j < s.scalls.length := by
    rw [h.scalls.length_eq]
    exact (List.getElem?_eq_some_iff.mp hj).1
  have hlen' : j < s'.scalls.length := (List.getElem?_eq_some_iff.mp hj).1
  obtain ⟨hmem, hle⟩ := hall.get hlen hlen'
  have hsc' : s'.scalls.get ⟨j, hlen'⟩ = sc' := (List.getElem?_eq_some_iff.mp hj).2
  rw [hsc'] at hle
  rcases hle.headers hdr hhdr with hold | hnew
  · exact (hq _ hmem hdr hold).trans hle.callSeq.symm
  · exact hnew.trans hle.callSeq.symm

variable {ex : Executor} {sc : Scall}

theorem seqOf_eq_some (hsc : s.scalls[k]? = some sc) : s.seqOf k = some sc.callSeq := by
  rw [Server.seqOf, hsc]
  rfl

theorem mayRun_of_waiting (hwait : ex.pc.waiting = true) (hseq : s.seqOf ex.scall = some n) :
    ex.mayRun s.seqOf n = true := by
  simp [Executor.mayRun, hwait, hseq]

theorem mayRun_of_held (hheld : ex.pc.held = some hdr) :
    ex.mayRun s.seqOf hdr.seq = true := by
  simp [Executor.mayRun, hheld]

theorem tame_execStart {needResv : Bool} (hex : s.execs[e]? = some ex) (hpc : ex.pc = .start)
    (h : execStart s e k needResv = some s') : Tame s s' := by
  have hstart : Tame s (s.updScall k fun sc => { sc with callIsQueued := false }) :=
    tame_updScall fun _ _ => ScallKeep.of_eq rfl rfl rfl rfl
  refine hstart.trans ?_
  simp only [execStart, Option.bind_eq_bind, Option.bind_eq_some_iff] at h
  obtain ⟨sc, -, h⟩ := h
  split at h
  · cases h
    exact tame_endOfCall
  · cases h
    refine tame_setPc_waiting hex (by rw [hpc]; rfl) ?_
    split <;> rfl

theorem tame_execResv (hex : s.execs[e]? = some ex) (hpc : ex.pc = .resv)
    (h : execResv s e k = some s') : Tame s s' := by
  simp only [execResv, Option.bind_eq_bind, Option.bind_eq_some_iff] at h
  obtain ⟨sc, -, h⟩ := h
  split at h
  · cases h
    exact tame_endOfCall
  · cases h
    exact tame_setPc_waiting hex (by rw [hpc]; rfl) rfl

theorem tame_execPrologue {force keyInfo : Bool} {reject : Option Ending}
    (hex : s.execs[e]? = some ex) (hrun : ex.mayRun s.seqOf hdr.seq = true)
    (h : execPrologue s e k hdr force keyInfo reject = some s') : Tame s s' := by
  simp only [execPrologue, Option.bind_eq_bind, Option.bind_eq_some_iff] at h
  obtain ⟨sc, -, i, -, scte, -, h⟩ := h
  cases reject with
  | some ending =>
    cases h
    exact tame_afterCallToStub
  | none =>
    dsimp only at h
    split at h
    · have hvalidated : ∀ validated : Bool, (if validated = true then
          if sc.callSeq ≠ scte.highSeq then some (endOfCall s e k hdr.seqIdem false false)
          else some (dispatch s e k hdr)
          else some (s.setPc e (.wayLock hdr force))) = some s' → Tame s s' := by
        intro validated h
        split_ifs at h <;> cases h
        · exact tame_endOfCall
        · exact tame_dispatch hex hrun
        · exact tame_setPc_held hex hrun rfl rfl
      split at h
      · exact hvalidated false h
      · obtain ⟨validated, -, h⟩ := Option.bind_eq_some_iff.mp h
        exact hvalidated validated h
    · split at h
      · simp at h
      · cases h
        exact tame_dispatch hex hrun

/-- Taking fragments off the queue is tame. -/
theorem tame_receive (auth : AuthCheck) (hsc : s.scalls[k]? = some sc) :
    Tame s (s.updScall k fun sc' =>
      { sc' with rq := (callReceiveInt sc.status sc.state auth sc.rq).1 }) := by
  refine tame_updScall fun sc' hsc' => ?_
  obtain rfl : sc = sc' := Option.some_inj.mp (hsc.symm.trans hsc')
  exact ⟨⟨rfl, id, fun hdr hhdr => .inl ((headers_callReceiveInt _ _ _ _).1 hdr hhdr)⟩, rfl⟩

theorem tame_execReceive {auth : AuthCheck} {keyInfo : Bool} {reject : Option Ending}
    (hq : s.QueueOk) (hex : s.execs[e]? = some ex) (hpc : ex.pc = .receive)
    (h : execReceive s e ex.scall auth keyInfo reject = some s') : Tame s s' := by
  simp only [execReceive, Option.bind_eq_bind, Option.bind_eq_some_iff] at h
  obtain ⟨sc, hsc, h⟩ := h
  have hreceive := tame_receive auth hsc
  have hshown := (headers_callReceiveInt sc.status sc.state auth sc.rq).2
  refine hreceive.trans ?_
  -- the packet shown to the executor belongs to the call of its handle
  have hrun : ∀ iove hdr, ((callReceiveInt sc.status sc.state auth sc.rq).2 = .needWayAuth iove ∨
      ∃ fack, (callReceiveInt sc.status sc.state auth sc.rq).2 = .data iove fack) →
      iove.hdrp = some hdr → ex.mayRun s.seqOf hdr.seq = true := by
    intro iove hdr hres hhdr
    have hseq := hq sc (List.mem_of_getElem? hsc) hdr (hshown iove hres hdr hhdr)
    refine mayRun_of_waiting (by rw [hpc]; rfl) ?_
    rw [seqOf_eq_some hsc, hseq]
  rw [← hreceive.seqOf] at hrun
  split at h
  · cases h
    exact tame_endOfCall
  · cases h
    exact Tame.refl _
  · simp at h
  · next iove hres =>
    obtain ⟨hdr, hhdr, h⟩ := Option.bind_eq_some_iff.mp h
    exact tame_execPrologue hex (hrun iove hdr (.inl hres) hhdr) h
  · next iove fack hres =>
    obtain ⟨hdr, hhdr, h⟩ := Option.bind_eq_some_iff.mp h
    exact tame_execPrologue hex (hrun iove hdr (.inr ⟨fack, hres⟩) hhdr) h

theorem tame_execWayLock {force bindingOk : Bool} (hex : s.execs[e]? = some ex)
    (hheld : ex.pc.held = some hdr) (h : execWayLock s e k hdr force bindingOk = some s') :
    Tame s s' := by
  have hrun := mayRun_of_held (s := s) hheld
  simp only [execWayLock, Option.bind_eq_bind, Option.bind_eq_some_iff] at h
  obtain ⟨sc, -, h⟩ := h
  split at h
  · cases h
    exact tame_endOfCall
  · simp only [Option.bind_eq_some_iff] at h
    obtain ⟨i, -, scte, -, validated, -, h⟩ := h
    split_ifs at h <;> cases h <;> exact tame_setPc_held hex hrun rfl rfl

/-- The answer of the client moves the connection, and nothing else. -/
theorem quiet_execWayAnswer {force : Bool} {seq : BitVec 32} (hex : s.execs[e]? = some ex)
    (hheld : ex.pc.held = some hdr)
    (h : execWayAnswer s e hdr force i (some seq) = some s') :
    Tame (s.updScte i (wayRaise seq)) s' := by
  have hrun := mayRun_of_held (s := s.updScte i (wayRaise seq)) hheld
  simp only [execWayAnswer, Option.map_eq_some_iff] at h
  obtain ⟨t, ht, rfl⟩ := h
  simp only [sctWayAnswer, Option.bind_eq_bind, Option.bind_eq_some_iff] at ht
  obtain ⟨scte, -, ht⟩ := ht
  have htame : Tame (s.updScte i (wayRaise seq)) t ∧ t.execs = s.execs := by
    split at ht
    · cases ht
      exact ⟨tame_updScall fun _ _ => ScallKeep.of_eq rfl rfl rfl rfl, rfl⟩
    · cases ht
      exact ⟨Tame.refl _, rfl⟩
  obtain ⟨htame, hexecs⟩ := htame
  refine htame.trans (tame_setPc_held (by rw [hexecs]; exact hex) ?_ rfl rfl)
  rw [htame.seqOf]
  exact hrun

theorem tame_execWayDone {force ok : Bool} {auth : AuthCheck} {reject : Option Ending}
    {ending : Ending} (hex : s.execs[e]? = some ex) (hheld : ex.pc.held = some hdr)
    (h : execWayDone s e k hdr force ok auth reject ending = some s') : Tame s s' := by
  have hrun := mayRun_of_held (s := s) hheld
  simp only [execWayDone, Option.bind_eq_bind, Option.bind_eq_some_iff] at h
  obtain ⟨sc, hsc, h⟩ := h
  split at h
  · cases h
    exact tame_endOfCall
  split at h
  · cases h
    exact tame_afterCallToStub
  simp only [Option.bind_eq_some_iff] at h
  obtain ⟨i, -, scte, -, h⟩ := h
  split at h
  · cases h
    exact tame_endOfCall
  split at h
  · cases h
    exact tame_afterCallToStub
  split at h
  · have hreceive := tame_receive auth hsc
    split at h
    · split at h
      · cases h
        refine hreceive.trans (tame_dispatch hex ?_)
        rw [hreceive.seqOf]
        exact hrun
      · simp at h
    · cases h
      exact tame_afterCallToStub
    · cases h
      exact tame_afterCallToStub
    · cases h
      exact hreceive
    · simp at h
  · cases h
    exact tame_dispatch hex hrun

theorem tame_execStubReceive {auth : AuthCheck} (h : execStubReceive s k auth = some s') :
    Tame s s' := by
  simp only [execStubReceive, Option.bind_eq_bind, Option.bind_eq_some_iff] at h
  obtain ⟨sc, hsc, h⟩ := h
  cases h
  exact tame_receive _ hsc

theorem tame_execStubTransmit : Tame s (execStubTransmit s k) := by
  refine tame_updScall fun sc _ => ?_
  split
  · exact ScallKeep.of_eq rfl rfl rfl rfl
  · exact ScallKeep.refl sc

theorem tame_execStubReturn {ending : Ending} (h : execStubReturn s e k hdr ending = some s') :
    Tame s s' := by
  simp only [execStubReturn, Option.bind_eq_bind, Option.bind_eq_some_iff] at h
  obtain ⟨sc, -, h⟩ := h
  split at h
  · cases h
    exact tame_endOfCall
  · cases h
    exact tame_afterCallToStub

/-- Every step of an executor but the answer of a who-are-you callback is tame. -/
theorem execStep_tame {ev : ExecEvent} {current : BitVec 32} (hq : s.QueueOk)
    (hex : s.execs[e]? = some ex) (h : execStep current s e ex.scall ex.pc ev = some s') :
    Tame s s' ∨ ∃ hdr force i, ex.pc = .wayCall hdr force i ∧ ev = .wayAnswer true ∧
      Tame (s.updScte i (wayRaise current)) s' := by
  unfold execStep at h
  split at h
  · next hpc =>
    cases h
    exact .inl (tame_setPc_waiting hex (by rw [hpc]; rfl) rfl)
  · next hpc => exact .inl (tame_execStart hex hpc h)
  · next hpc => exact .inl (tame_execResv hex hpc h)
  · next hpc => exact .inl (tame_execReceive hq hex hpc h)
  · next hpc => exact .inl (tame_execWayLock hex (by rw [hpc]; rfl) h)
  · next hdr force i ok hpc =>
    have hheld : ex.pc.held = some hdr := by rw [hpc]; rfl
    cases ok with
    | false =>
      cases h
      exact .inl (tame_setPc_held hex (mayRun_of_held hheld) rfl rfl)
    | true => exact .inr ⟨hdr, force, i, hpc, rfl, quiet_execWayAnswer hex hheld h⟩
  · next hpc => exact .inl (tame_execWayDone hex (by rw [hpc]; rfl) h)
  · exact .inl (tame_execStubReceive h)
  · cases h
    exact .inl tame_execStubTransmit
  · exact .inl (tame_execStubReturn h)
  · simp at h

/-! ### Timers, acks and quits -/

theorem tame_signalFailure {st : Status} : Tame s (s.updScall k (signalFailure st)) :=
  tame_updScall fun _ _ => ScallKeep.of_eq rfl rfl rfl rfl

theorem tame_scallOrphanCall (h : scallOrphanCall s k = some s') : Tame s s' := by
  simp only [scallOrphanCall, Option.bind_eq_bind, Option.bind_eq_some_iff] at h
  obtain ⟨sc, hsc, h⟩ := h
  split at h
  · cases h
    exact Tame.refl s
  · obtain ⟨i, hi, h⟩ := Option.bind_eq_some_iff.mp h
    cases h
    refine (tame_unlink hsc hi fun sc => ?_).trans tame_cthreadDequeue
    exact ⟨rfl, id, fun _ hmem => .inl hmem⟩

theorem tame_scallUncache (hsc : s.scalls[k]? = some sc) : Tame s (scallUncache s k sc) := by
  unfold scallUncache
  split
  · next i hi =>
    exact tame_unlink hsc hi fun sc => ⟨rfl, id, fun _ hmem => .inl hmem⟩
  · exact Tame.refl s

theorem tame_scallTimer {aged : Bool} (h : scallTimer s k aged = some s') : Tame s s' := by
  simp only [scallTimer, Option.bind_eq_bind, Option.bind_eq_some_iff] at h
  obtain ⟨sc, hsc, h⟩ := h
  split at h
  · cases h
    exact Tame.refl s
  · cases h
    exact Tame.refl s
  · cases h
    split
    · exact tame_scallUncache hsc
    · exact Tame.refl s
  · split at h
    · exact tame_scallOrphanCall h
    · cases h
      exact Tame.refl s
  · split at h
    · cases h
      exact tame_updScall fun _ _ => ScallKeep.of_eq rfl rfl rfl rfl
    · cases h
      exact Tame.refl s
  · cases h
    split
    · exact Tame.refl s
    · exact tame_scallUncache hsc

theorem tame_doAck {cfg : ServerConfig} : Tame s (doAck cfg s hdr) := by
  unfold doAck
  split
  · exact Tame.refl s
  · split
    · refine tame_updScall fun sc _ => ?_
      split
      · exact ScallKeep.of_eq rfl rfl rfl rfl
      · exact ScallKeep.refl sc
    · exact Tame.refl s

theorem tame_doQuit {cfg : ServerConfig} (h : doQuit cfg s hdr = some s') : Tame s s' := by
  unfold doQuit at h
  split at h
  · cases h
    exact Tame.refl s
  split at h
  · cases h
    exact Tame.refl s
  simp only [Option.bind_eq_bind, Option.bind_eq_some_iff] at h
  obtain ⟨sc, -, h⟩ := h
  split at h
  · cases h
    exact Tame.refl s
  · next k _ _ =>
    have hrq : Tame s (s.updScall k fun sc =>
        { sc with rq := { sc.rq with allPktsRecvd := true } }) :=
      tame_updScall fun _ _ => ScallKeep.of_eq rfl rfl rfl rfl
    refine hrq.trans ?_
    split at h
    any_goals exact tame_scallOrphanCall h
    all_goals
      cases h
      exact Tame.refl _

end Dg
