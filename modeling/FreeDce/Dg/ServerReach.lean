/-
What holds in every run of the datagram server, whatever the packets do.

Sequence numbers are measured by their distance from the number `b` before the
client's first call.  In that measure the client's calls are increasing, and the
connection is never ahead of the call that the client is performing
(`Consistent`, `consistent_of_exec`).
-/
import FreeDce.Dg.RequestShape
import FreeDce.Lib.Serial

namespace Dg

open Runs

variable {cfg : ServerConfig} {sys sys' : System} {ev : ServerEvent} {b : BitVec 32}

/-! ### One step -/

/-- What a step of the server is: it is tame, or a who-are-you callback was answered,
or a request was handled. -/
inductive Stepped (cfg : ServerConfig) (sys : System) (ev : ServerEvent) (s' : Server) : Prop
  | tame (h : Tame sys.server s')
  | way (e : ℕ) (ex : Executor) (hdr : PktHdr) (force : Bool) (i : ℕ) (c : ClientCall)
    (hev : ev = .exec e (.wayAnswer true)) (hex : sys.server.execs[e]? = some ex)
    (hpc : ex.pc = .wayCall hdr force i) (hc : sys.calls.head? = some c)
    (h : Tame (sys.server.updScte i (wayRaise c.seq)) s')
  | request (pkt : Pkt) (env : CallEnv) (invoke : InvokeResult)
    (hev : ev = .request pkt env invoke) (hcall : ofCall sys.calls pkt.hdr = true)
    (hhint : ownHint sys.server pkt.hdr = true)
    (h : doRequest cfg sys.server pkt env invoke = some s')

theorem serverStep_cases (hq : sys.server.QueueOk) (h : serverStep cfg sys ev = some sys') :
    (∃ c, ev = .clientCall c ∧ follows sys.calls c = true ∧
      sys' = { sys with calls := c :: sys.calls }) ∨
      sys'.calls = sys.calls ∧ Stepped cfg sys ev sys'.server := by
  cases ev with
  | clientCall c =>
    rw [serverStep] at h
    split at h
    · next hfollows =>
      cases h
      exact .inl ⟨c, rfl, hfollows, rfl⟩
    · cases h
  | request pkt env invoke =>
    rw [serverStep] at h
    split at h
    · next hpkt =>
      obtain ⟨s', hs', rfl⟩ := Option.map_eq_some_iff.mp h
      exact .inr ⟨rfl, .request pkt env invoke rfl hpkt.1 hpkt.2 hs'⟩
    · cases h
  | ping hdr =>
    cases h
    exact .inr ⟨rfl, .tame (Tame.refl _)⟩
  | ack hdr =>
    cases h
    exact .inr ⟨rfl, .tame tame_doAck⟩
  | quit hdr =>
    obtain ⟨s', hs', rfl⟩ := Option.map_eq_some_iff.mp h
    exact .inr ⟨rfl, .tame (tame_doQuit hs')⟩
  | timer k aged =>
    obtain ⟨s', hs', rfl⟩ := Option.map_eq_some_iff.mp h
    exact .inr ⟨rfl, .tame (tame_scallTimer hs')⟩
  | signalFailure k st =>
    cases h
    exact .inr ⟨rfl, .tame tame_signalFailure⟩
  | exec e xev =>
    rw [serverStep] at h
    simp only [Option.bind_eq_bind, Option.bind_eq_some_iff] at h
    obtain ⟨c, hc, ex, hex, s', hs', hsys⟩ := h
    cases hsys
    rcases execStep_tame hq hex hs' with htame | ⟨hdr, force, i, hpc, rfl, htame⟩
    · exact .inr ⟨rfl, .tame htame⟩
    · exact .inr ⟨rfl, .way e ex hdr force i c rfl hex hpc hc htame⟩

/-! ### The client's calls -/

/-- The calls are increasing and lie within half the number space. -/
structure Increasing (b : BitVec 32) (calls : List ClientCall) : Prop where
  sorted : calls.Pairwise fun c c' => Serial.dist b c'.seq < Serial.dist b c.seq
  pos : ∀ c ∈ calls, 1 ≤ Serial.dist b c.seq
  le : ∀ c ∈ calls, Serial.dist b c.seq ≤ 2 ^ 31
  first : ∃ c ∈ calls, Serial.dist b c.seq = 1

theorem Increasing.eq_of_seq {calls : List ClientCall} (h : Increasing b calls)
    {c c' : ClientCall} (hc : c ∈ calls) (hc' : c' ∈ calls) (hseq : c.seq = c'.seq) : c = c' := by
  by_contra hne
  have : Std.Symm fun c c' : ClientCall => c.seq ≠ c'.seq := ⟨fun _ _ hxy => hxy.symm⟩
  have hpairwise : calls.Pairwise fun c c' => c.seq ≠ c'.seq :=
    h.sorted.imp fun hlt heq => by rw [heq] at hlt; exact lt_irrefl _ hlt
  exact hpairwise.forall hc hc' hne hseq

theorem exists_head {calls : List ClientCall} {c : ClientCall} (hc : c ∈ calls) :
    ∃ c', calls.head? = some c' := by
  cases calls with
  | nil => cases hc
  | cons d rest => exact ⟨d, rfl⟩

theorem Increasing.le_head {calls : List ClientCall} (h : Increasing b calls) {c c' : ClientCall}
    (hc : calls.head? = some c) (hc' : c' ∈ calls) :
    Serial.dist b c'.seq ≤ Serial.dist b c.seq := by
  cases calls with
  | nil => cases hc
  | cons d rest =>
    obtain rfl : d = c := by simpa using hc
    rcases List.mem_cons.mp hc' with rfl | hmem
    · exact le_rfl
    · exact (List.rel_of_pairwise_cons h.sorted hmem).le

theorem lt_of_follows {calls : List ClientCall} (h : Increasing b calls) {c : ClientCall}
    (hfollows : follows calls c = true) :
    Serial.dist b c.seq ≤ 2 ^ 31 ∧
      ∀ c' ∈ calls, Serial.dist b c'.seq < Serial.dist b c.seq := by
  have hall : ∀ c' ∈ calls, Serial.Lt c'.seq c.seq ∧ ¬ Serial.Lt c.seq c'.seq :=
    fun c' hc' => of_decide_eq_true (List.all_eq_true.mp hfollows c' hc')
  obtain ⟨c₁, hc₁, hone⟩ := h.first
  have hle : Serial.dist b c.seq ≤ 2 ^ 31 := by
    by_contra hgt
    exact (hall c₁ hc₁).2 (Serial.lt_of_dist_far (b := b) (w := 31) (by omega))
  refine ⟨hle, fun c' hc' => ?_⟩
  have hpos := h.pos c' hc'
  have hle' := h.le c' hc'
  by_cases hzero : Serial.dist b c.seq = 0
  · -- a call cannot come a full half turn before the first one
    have hlt := (Serial.lt_iff_dist (b := b) (w := 31) (x := c.seq) (y := c₁.seq)
      (by omega) (by omega)).mpr (by omega)
    exact absurd hlt (hall c₁ hc₁).2
  · exact (Serial.lt_iff_dist (b := b) (w := 31) (by omega) (by omega)).mp (hall c' hc').1

theorem Increasing.cons {calls : List ClientCall} (h : Increasing b calls) {c : ClientCall}
    (hfollows : follows calls c = true) : Increasing b (c :: calls) := by
  obtain ⟨hle, hlt⟩ := lt_of_follows h hfollows
  obtain ⟨c₁, hc₁, hone⟩ := h.first
  refine ⟨List.pairwise_cons.mpr ⟨hlt, h.sorted⟩, fun c' hc' => ?_, fun c' hc' => ?_,
    c₁, List.mem_cons_of_mem _ hc₁, hone⟩
  · rcases List.mem_cons.mp hc' with rfl | hmem
    · have := hlt c₁ hc₁
      omega
    · exact h.pos c' hmem
  · rcases List.mem_cons.mp hc' with rfl | hmem
    · exact hle
    · exact h.le c' hmem

/-! ### The invariant -/

/-- The connection is not ahead of the client. -/
def NotAhead (b : BitVec 32) (calls : List ClientCall) (s : Server) : Prop :=
  ∀ h, s.high = some h → ∀ c, calls.head? = some c → Serial.dist b h ≤ Serial.dist b c.seq

/-- What the data structures of the server keep among themselves. -/
structure Server.Sound (cfg : ServerConfig) (s : Server) : Prop where
  oneEntry : s.OneEntry cfg
  valid : s.Valid
  queueOk : s.QueueOk
  linked : s.Linked

structure Consistent (cfg : ServerConfig) (b : BitVec 32) (sys : System) : Prop where
  calls : Increasing b sys.calls
  sound : sys.server.Sound cfg
  notAhead : NotAhead b sys.calls sys.server

variable {calls : List ClientCall} {s s' t u : Server} {k : ℕ} {seq h : BitVec 32} {pkt : Pkt}
  {hdr : PktHdr} {env : CallEnv} {invoke : InvokeResult} {scte : SctElt}

/-- The call that a packet belongs to. -/
theorem exists_of_ofCall (hcall : ofCall calls hdr = true) :
    ∃ c ∈ calls, c.seq = hdr.seq ∧ c.idem = hdr.seqIdem ∧ c.maybe = hdr.seqMaybe := by
  obtain ⟨c, hc, heq⟩ := List.any_eq_true.mp hcall
  exact ⟨c, hc, of_decide_eq_true heq⟩

/-- Distances of a number of the client and one of the connection tell how they compare. -/
theorem lt_high_iff (hpos : 1 ≤ Serial.dist b seq) (hseq : Serial.dist b seq ≤ 2 ^ 31)
    (hhigh : Serial.dist b h ≤ 2 ^ 31) :
    (Serial.Lt h seq ↔ Serial.dist b h < Serial.dist b seq) ∧
      (¬ Serial.Lt seq h → Serial.dist b h ≤ Serial.dist b seq) := by
  refine ⟨Serial.lt_iff_dist (w := 31) (by omega) (by omega), fun hnot => ?_⟩
  by_contra hlt
  exact hnot ((Serial.lt_iff_dist (b := b) (w := 31) (by omega) (by omega)).mpr (by omega))

/-- A new call never takes the connection back. -/
theorem le_raisedTo (hpos : 1 ≤ Serial.dist b hdr.seq) (hseq : Serial.dist b hdr.seq ≤ 2 ^ 31)
    (hhigh : Serial.dist b h ≤ 2 ^ 31)
    (hvalid : ¬ (Serial.Lt hdr.seq h ∧ hdr.seqMaybe = false)) :
    Serial.dist b h ≤ Serial.dist b (raisedTo hdr h) := by
  obtain ⟨hlt, hnotlt⟩ := lt_high_iff hpos hseq hhigh
  unfold raisedTo
  split
  · next hraise =>
    rcases hraise with hmaybe | hraise
    · exact hnotlt fun hback => hvalid ⟨hback, hmaybe⟩
    · exact (hlt.mp hraise).le
  · exact le_rfl

theorem Tame.sound (htame : Tame s s') (hs : s.Sound cfg) : s'.Sound cfg where
  oneEntry := htame.oneEntry hs.oneEntry
  valid := htame.valid hs.valid
  queueOk := htame.queueOk hs.queueOk
  linked := htame.linked hs.linked

theorem sound_lookedUp (hs : s.Sound cfg) (hhint : ownHint s hdr = true) :
    (lookedUp cfg s hdr).Sound cfg where
  oneEntry := (lookedUp_spec hs.oneEntry hhint).1
  valid := quiet_lookedUp.valid hs.valid
  queueOk := quiet_lookedUp.queueOk hs.queueOk
  linked := linked_lookedUp hs.oneEntry hhint hs.linked

theorem sound_way (hs : s.Sound cfg) (i : ℕ) : (s.updScte i (wayRaise seq)).Sound cfg where
  oneEntry := oneEntry_updScte (fun _ => rfl) hs.oneEntry
  valid := hs.valid
  queueOk := hs.queueOk
  linked := linked_updScte (fun _ => rfl) hs.linked

theorem sctNewCall_sound {scallp : Option ℕ} (hs : s.Sound cfg) (hscte : s.sct[0]? = some scte)
    (h : sctNewCall s 0 scallp hdr = some (s', k)) : s'.Sound cfg := by
  obtain ⟨hnc, hone, -, -, -, hlinked, -⟩ := sctNewCall_cases hs.oneEntry hscte h
  exact ⟨hone, hnc.valid hs.valid, hnc.queueOk hs.queueOk, hlinked hs.linked⟩

theorem sound_backout (hs : s.Sound cfg) (i : Option ℕ) :
    (sctBackoutNewCall s i seq).Sound cfg := by
  cases i with
  | none =>
    exact ⟨⟨hs.oneEntry.length, hs.oneEntry.ahint⟩, hs.valid, hs.queueOk,
      ⟨hs.linked.scte, hs.linked.nodup⟩⟩
  | some i =>
    have herased : Server.Sound cfg { s with accepted := s.accepted.erase seq } :=
      ⟨⟨hs.oneEntry.length, hs.oneEntry.ahint⟩, hs.valid, hs.queueOk,
        ⟨hs.linked.scte, hs.linked.nodup⟩⟩
    refine ⟨oneEntry_updScte (fun scte => ?_) herased.oneEntry, hs.valid, hs.queueOk,
      linked_updScte (fun scte => ?_) herased.linked⟩
    · split <;> rfl
    · split <;> rfl

theorem exists_high (hhigh : s.high = some h) : ∃ scte, s.sct[0]? = some scte ∧ scte.highSeq = h := by
  rwa [Server.high, List.head?_eq_getElem?, Option.map_eq_some_iff] at hhigh

/-- Backing a call out takes the connection to the number before it, if it is there. -/
theorem high_backout_zero (hhigh : s.high = some h) :
    (sctBackoutNewCall s (some 0) seq).high = some (if seq = h then h - 1 else h) := by
  obtain ⟨scte, hscte, rfl⟩ := exists_high hhigh
  have hup := high_updScte (s := { s with accepted := s.accepted.erase seq }) (i := 0)
    (f := fun e => if seq = e.highSeq then { e with highSeq := e.highSeq - 1 } else e) hscte
  rw [if_pos rfl] at hup
  refine hup.trans ?_
  split <;> rfl

theorem high_backout (seq : BitVec 32) (hhigh : s.high = some h) (i : Option ℕ) :
    (sctBackoutNewCall s i seq).high = some h ∨
      seq = h ∧ (sctBackoutNewCall s i seq).high = some (h - 1) := by
  match i with
  | none => exact .inl hhigh
  | some 0 =>
    rw [high_backout_zero hhigh]
    split
    · next heq => exact .inr ⟨heq, rfl⟩
    · exact .inl rfl
  | some (i + 1) =>
    obtain ⟨scte, hscte, rfl⟩ := exists_high hhigh
    refine .inl ?_
    exact high_updScte (s := { s with accepted := s.accepted.erase seq }) (i := i + 1) hscte

theorem backout_tokens (i : Option ℕ) (n : BitVec 32) :
    (sctBackoutNewCall s i seq).tokens n = s.tokens n := by
  cases i <;> rfl

/-- Where accepting a packet leaves the connection. -/
theorem acceptPkt_high (hs : s.Sound cfg) (hhigh : s.high = some h)
    (hk : ∀ sc, s.scalls[k]? = some sc → sc.callSeq = pkt.hdr.seq)
    (hacc : acceptPkt s k pkt env invoke = some s') :
    s'.Sound cfg ∧ (s'.high = some h ∨ pkt.hdr.seq = h ∧ s'.high = some (h - 1)) := by
  rcases acceptPkt_cases hk hacc with htame | ⟨-, t, htame, -, rfl⟩
  · exact ⟨htame.sound hs, .inl (htame.high.trans hhigh)⟩
  · exact ⟨sound_backout (htame.sound hs) _, high_backout _ (htame.high.trans hhigh) _⟩

theorem notAhead_accept (hle : ∀ c, calls.head? = some c → Serial.dist b h ≤ Serial.dist b c.seq)
    (hpos : 1 ≤ Serial.dist b seq)
    (hhigh : s.high = some h ∨ seq = h ∧ s.high = some (h - 1)) : NotAhead b calls s := by
  intro h' hh' c hc
  have hbound := hle c hc
  rcases hhigh with hsame | ⟨rfl, hback⟩
  · rw [hsame] at hh'
    cases hh'
    exact hbound
  · rw [hback] at hh'
    cases hh'
    rw [Serial.dist_sub_one (w := 31) hpos]
    omega

/-- The connection after the look-up is not ahead of the client either. -/
theorem lookedUp_le (hcalls : Increasing b calls) (hcall : ofCall calls hdr = true)
    (hahead : NotAhead b calls s) (hhigh : h = s.high.getD (hdr.seq - 1)) :
    (1 ≤ Serial.dist b hdr.seq ∧ Serial.dist b hdr.seq ≤ 2 ^ 31 ∧ Serial.dist b h ≤ 2 ^ 31) ∧
      ∀ c, calls.head? = some c → Serial.dist b h ≤ Serial.dist b c.seq ∧
        Serial.dist b hdr.seq ≤ Serial.dist b c.seq := by
  obtain ⟨c, hc, hseq, -, -⟩ := exists_of_ofCall hcall
  have hpos := hcalls.pos c hc
  have hle := hcalls.le c hc
  rw [hseq] at hpos hle
  have hfront : ∀ c, calls.head? = some c → Serial.dist b h ≤ Serial.dist b c.seq ∧
      Serial.dist b hdr.seq ≤ Serial.dist b c.seq := by
    intro c' hc'
    have hbound := hcalls.le_head hc' hc
    rw [hseq] at hbound
    refine ⟨?_, hbound⟩
    rcases hs : s.high with _ | h'
    · rw [hs, Option.getD_none] at hhigh
      rw [hhigh, Serial.dist_sub_one (w := 31) hpos]
      omega
    · rw [hs, Option.getD_some] at hhigh
      rw [hhigh]
      exact hahead h' hs c' hc'
  refine ⟨⟨hpos, hle, ?_⟩, hfront⟩
  obtain ⟨c', hc'⟩ := exists_head hc
  exact (hfront c' hc').1.trans (hcalls.le c' (List.mem_of_head? hc'))

theorem consistent_request (hinv : Consistent cfg b sys) (hcall : ofCall sys.calls pkt.hdr = true)
    (hhint : ownHint sys.server pkt.hdr = true)
    (h : doRequest cfg sys.server pkt env invoke = some s') :
    s'.Sound cfg ∧ NotAhead b sys.calls s' := by
  rcases doRequest_cases hinv.sound.oneEntry hhint h with
    rfl | ⟨scte, hscte, hhigh, -, -, hreq⟩
  · exact ⟨hinv.sound, hinv.notAhead⟩
  obtain ⟨⟨hpos, hle, hhigh31⟩, hfront⟩ := lookedUp_le hinv.calls hcall hinv.notAhead hhigh
  have hs := sound_lookedUp hinv.sound hhint
  have hhigh' := high_eq hscte
  cases hreq with
  | refused hdisp htame =>
    refine ⟨htame.sound hs, ?_⟩
    exact notAhead_accept (fun c hc => (hfront c hc).1) hpos (.inl (htame.high.trans hhigh'))
  | current k hhandle hseq hk hacc =>
    obtain ⟨hs', hhigh''⟩ := acceptPkt_high hs hhigh' hk hacc
    exact ⟨hs', notAhead_accept (fun c hc => (hfront c hc).1) hpos hhigh''⟩
  | new scallp t u k ht hnew hcall' hacc =>
    obtain ⟨scte', hscte', hkey⟩ := exists_high (ht.high.trans hhigh')
    obtain ⟨hnc, -, -, hraised, -⟩ := sctNewCall_cases (ht.sound hs).oneEntry hscte' hcall'
    rw [hkey] at hraised
    have hsu := sctNewCall_sound (ht.sound hs) hscte' hcall'
    obtain ⟨hs', hhigh''⟩ := acceptPkt_high hsu hraised (fun sc hsc => (hnc.handle sc hsc).1) hacc
    refine ⟨hs', notAhead_accept (fun c hc => ?_) hpos hhigh''⟩
    unfold raisedTo
    split
    · exact (hfront c hc).2
    · exact (hfront c hc).1

/-- An answer takes the connection to the client's call, if it moves it at all. -/
theorem high_wayRaise (hhigh : s.high = some h) (i : ℕ) :
    (s.updScte i (wayRaise seq)).high = some h ∨
      i = 0 ∧ ¬ Serial.Lt seq h ∧ (s.updScte i (wayRaise seq)).high = some seq := by
  obtain ⟨scte, hscte, rfl⟩ := exists_high hhigh
  have hup := high_updScte (i := i) (f := wayRaise seq) hscte
  by_cases hi : i = 0
  · rw [if_pos hi] at hup
    by_cases hlt : Serial.Lt seq scte.highSeq
    · rw [wayRaise, if_pos hlt] at hup
      exact .inl hup
    · rw [wayRaise, if_neg hlt] at hup
      exact .inr ⟨hi, hlt, hup⟩
  · rw [if_neg hi] at hup
    exact .inl hup

/-- Without a connection there is nothing to raise. -/
theorem high_updScte_none {f : SctElt → SctElt} {i : ℕ} (hhigh : s.high = none) :
    s.updScte i f = s := by
  refine updScte_nil ?_
  rwa [Server.high, Option.map_eq_none_iff, List.head?_eq_none_iff] at hhigh

theorem notAhead_way {c : ClientCall} {i : ℕ} (hc : calls.head? = some c)
    (hahead : NotAhead b calls s) : NotAhead b calls (s.updScte i (wayRaise c.seq)) := by
  intro h' hh' c' hc'
  rcases hs : s.high with _ | h
  · rw [high_updScte_none hs] at hh'
    exact hahead h' hh' c' hc'
  · rcases high_wayRaise hs i with hsame | ⟨-, -, hraised⟩
    · exact hahead h' (hs.trans (hsame.symm.trans hh')) c' hc'
    · rw [hraised] at hh'
      cases hh'
      rw [Option.some_inj.mp (hc.symm.trans hc')]

theorem consistent_step (hinv : Consistent cfg b sys) (h : serverStep cfg sys ev = some sys') :
    Consistent cfg b sys' := by
  rcases serverStep_cases hinv.sound.queueOk h with ⟨c, -, hfollows, rfl⟩ | ⟨hcalls, hstep⟩
  · refine ⟨hinv.calls.cons hfollows, hinv.sound, ?_⟩
    intro h' hh' c' hc'
    obtain rfl : c = c' := by simpa using hc'
    obtain ⟨c₁, hc₁, -⟩ := hinv.calls.first
    obtain ⟨d, hd⟩ := exists_head hc₁
    have hlt := (lt_of_follows hinv.calls hfollows).2 d (List.mem_of_head? hd)
    have hle := hinv.notAhead h' hh' d hd
    omega
  · have hrest : sys'.server.Sound cfg ∧ NotAhead b sys.calls sys'.server := by
      cases hstep with
      | tame htame =>
        refine ⟨htame.sound hinv.sound, fun h' hh' => ?_⟩
        rw [htame.high] at hh'
        exact hinv.notAhead h' hh'
      | way e ex hdr force i c hev hex hpc hc htame =>
        refine ⟨htame.sound (sound_way hinv.sound i), fun h' hh' => ?_⟩
        rw [htame.high] at hh'
        exact notAhead_way hc hinv.notAhead h' hh'
      | request pkt env invoke hev hcall hhint hdo => exact consistent_request hinv hcall hhint hdo
    exact ⟨by rw [hcalls]; exact hinv.calls, hrest.1, by rw [hcalls]; exact hrest.2⟩

theorem consistent_start (c : ClientCall) :
    Consistent cfg (c.seq - 1) (System.start c) where
  calls := by
    have hone := Serial.dist_self_sub_one (w := 31) c.seq
    have hmem : ∀ c' ∈ (System.start c).calls, c' = c := fun c' hc' => List.mem_singleton.mp hc'
    refine ⟨List.pairwise_singleton _ _, fun c' hc' => ?_, fun c' hc' => ?_,
      c, List.mem_singleton_self c, hone⟩
    · rw [hmem c' hc', hone]
    · rw [hmem c' hc', hone]
      omega
  sound := ⟨⟨Nat.zero_le 1, fun _ h => (List.not_mem_nil h).elim⟩,
    fun _ h => (List.not_mem_nil h).elim, fun _ h => (List.not_mem_nil h).elim,
    ⟨fun _ _ h => (nomatch h), fun _ h => (List.not_mem_nil h).elim⟩⟩
  notAhead := fun _ h => by cases h

theorem consistent_of_exec {c : ClientCall} {es : List ServerEvent}
    (h : exec (serverStep cfg) (System.start c) es = some sys) :
    Consistent cfg (c.seq - 1) sys :=
  exec_invariant' (fun _ _ _ hinv hstep => consistent_step hinv hstep) (consistent_start c) h

/-- An executor takes call 5, whose packet comes twice. -/
theorem consistent_of_exec_request : ∃ sys,
    exec (serverStep bootOne) (System.start { seq := 5 })
      (request 5 0 0 :: takeFirst 0 ++ [request 5 0 0]) = some sys ∧
      Consistent bootOne (5 - 1) sys := by
  have hrun : (exec (serverStep bootOne) (System.start { seq := 5 })
      (request 5 0 0 :: takeFirst 0 ++ [request 5 0 0])).isSome := by decide
  obtain ⟨sys, hexec⟩ := Option.isSome_iff_exists.mp hrun
  exact ⟨sys, hexec, consistent_of_exec hexec⟩

end Dg
