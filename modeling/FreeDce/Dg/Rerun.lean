/-
A request is refused as a rerun only if its call was accepted.

The filter takes a request whose number is the connection's for a rerun when it
finds no call handle for it.  So the number the connection is at must be that of
a call that was accepted, or of an idempotent one (`RerunSafe`).  New calls keep
that; two steps may not, and `SeqsAccepted` is the condition on them:

* the answer of a who-are-you callback takes the connection to the call the
  client is performing, whether or not a request of it has arrived;
* backing a call out takes the connection to the number before it, or leaves it
  at the number if the handle was orphaned and no longer belongs to it.
-/
import FreeDce.Dg.ServerReach

namespace Dg

open Runs

variable {cfg : ServerConfig} {sys sys' : System} {ev : ServerEvent} {b : BitVec 32}
  {calls : List ClientCall} {s s' t u : Server} {k : ℕ} {h seq : BitVec 32} {pkt : Pkt}
  {hdr : PktHdr} {env : CallEnv} {invoke : InvokeResult} {scte : SctElt}

/-- What the filter says to a request, if the packet gets that far. -/
def requestAnswer (cfg : ServerConfig) (s : Server) (hdr : PktHdr) : Option DoReq :=
  if svrChkSboot cfg hdr = false then none
  else
    let t := lookedUp cfg s hdr
    (t.sct[(sctGet cfg s.sct hdr.ahint.toNat hdr.seq).2]?).map fun scte =>
      (requestDisposition t scte hdr).2

/-- The call is a maybe call from before the connection's number. -/
def isLateMaybe (s : Server) (hdr : PktHdr) : Bool :=
  hdr.seqMaybe ∧ s.sct.any fun scte => scte.highSeq ≠ hdr.seq ∧ ¬ Serial.Lt scte.highSeq hdr.seq

/-- A call of the client that the server may refuse as a rerun. -/
def ClientCall.mayBeRefused (s : Server) (c : ClientCall) : Bool := c.idem ∨ c.seq ∈ s.accepted

/-- Steps that set the connection to a number which is not that of a new call set it
to that of a call that may be refused. -/
def SeqsAccepted (cfg : ServerConfig) (sys : System) : ServerEvent → Prop
  | .exec _ (.wayAnswer true) => ∀ c ∈ sys.calls.head?, c.mayBeRefused sys.server = true
  | .request pkt _ .failed =>
    (isLateMaybe sys.server pkt.hdr = true ∨
        ∀ c ∈ sys.calls, c.seq = pkt.hdr.seq - 1 → c.mayBeRefused sys.server = true) ∧
      (requestAnswer cfg sys.server pkt.hdr = some .orphanCurCall →
        pkt.hdr.seqMaybe = true → pkt.hdr.seqIdem = true)
  | _ => True

instance : Decidable (SeqsAccepted cfg sys ev) := by
  unfold SeqsAccepted
  split <;> infer_instance

/-- The connection is at an accepted call, or at one that may run again. -/
def RerunSafe (calls : List ClientCall) (s : Server) : Prop :=
  ∀ h, s.high = some h → ∀ c ∈ calls, c.seq = h → c.idem = false → h ∈ s.accepted

theorem RerunSafe.tame (hsafe : RerunSafe calls s) (htame : Tame s s') : RerunSafe calls s' := by
  intro h hh
  rw [htame.high] at hh
  rw [htame.accepted]
  exact hsafe h hh

theorem RerunSafe.way (hsafe : RerunSafe calls s) (hcalls : Increasing b calls) {c : ClientCall}
    (hc : calls.head? = some c) (hacc : c.mayBeRefused s = true) (i : ℕ) :
    RerunSafe calls (s.updScte i (wayRaise c.seq)) := by
  intro h' hh' c' hc' hseq hidem
  rcases hs : s.high with _ | h
  · rw [high_updScte_none hs] at hh'
    rw [hs] at hh'
    cases hh'
  · rcases high_wayRaise hs i with hsame | ⟨-, -, hraised⟩
    · exact hsafe h' (hs.trans (hsame.symm.trans hh')) c' hc' hseq hidem
    · obtain rfl : c.seq = h' := Option.some_inj.mp (hraised.symm.trans hh')
      obtain rfl := hcalls.eq_of_seq hc' (List.mem_of_head? hc) hseq
      rcases of_decide_eq_true hacc with hidem' | hmem
      · rw [hidem] at hidem'
        cases hidem'
      · exact hmem

theorem backout_accepted (i : Option ℕ) :
    (sctBackoutNewCall s i seq).accepted = s.accepted.erase seq := by
  cases i <;> rfl

theorem ne_sub_one (a : BitVec 32) : a - 1 ≠ a := by
  intro heq
  have hone : (1 : BitVec 32) = 0 := by
    rw [← sub_eq_self.mp heq]
  exact absurd hone (by decide)

/-- Backing out call `c₀`: if the connection stays there, then the call may run again. -/
theorem RerunSafe.backout (hsafe : RerunSafe calls s) (hcalls : Increasing b calls)
    {c₀ : ClientCall} (hc₀ : c₀ ∈ calls) (hhigh : s.high = some h) (i : Option ℕ)
    (hself : c₀.idem = true ∨ i = some 0)
    (hprev : c₀.seq = h → ∀ c ∈ calls, c.seq = h - 1 → c.mayBeRefused s = true) :
    RerunSafe calls (sctBackoutNewCall s i c₀.seq) := by
  intro h' hh' c hc hseq hidem
  rw [backout_accepted]
  rcases high_backout c₀.seq hhigh i with hsame | ⟨heq, hback⟩
  · obtain rfl : h = h' := Option.some_inj.mp (hsame.symm.trans hh')
    have hmem := hsafe h hhigh c hc hseq hidem
    by_cases heq : h = c₀.seq
    · exfalso
      rcases hself with hidem' | rfl
      · obtain rfl := hcalls.eq_of_seq hc hc₀ (hseq.trans heq)
        rw [hidem] at hidem'
        cases hidem'
      · rw [high_backout_zero hhigh, if_pos heq.symm, Option.some_inj] at hsame
        exact ne_sub_one h hsame
    · exact (List.mem_erase_of_ne heq).mpr hmem
  · obtain rfl : h - 1 = h' := Option.some_inj.mp (hback.symm.trans hh')
    rcases of_decide_eq_true (hprev heq c hc hseq) with hidem' | hmem
    · rw [hidem] at hidem'
      cases hidem'
    · rw [hseq] at hmem
      rw [heq]
      exact (List.mem_erase_of_ne (ne_sub_one h)).mpr hmem

theorem RerunSafe.accept (hsafe : RerunSafe calls s) (hcalls : Increasing b calls)
    (hcall : ofCall calls pkt.hdr = true) (hhigh : s.high = some h)
    (hk : ∀ sc, s.scalls[k]? = some sc → sc.callSeq = pkt.hdr.seq)
    (hself : invoke = .failed →
      pkt.hdr.seqIdem = true ∨ (s.scalls[k]?).bind Scall.scte = some 0)
    (hprev : invoke = .failed → pkt.hdr.seq = h →
      ∀ c ∈ calls, c.seq = h - 1 → c.mayBeRefused s = true)
    (hacc : acceptPkt s k pkt env invoke = some s') : RerunSafe calls s' := by
  obtain ⟨c₀, hc₀, hseq, hidem, -⟩ := exists_of_ofCall hcall
  rcases acceptPkt_cases hk hacc with htame | ⟨hfailed, t, htame, -, rfl⟩
  · exact hsafe.tame htame
  · rw [← hseq]
    refine (hsafe.tame htame).backout hcalls hc₀ (htame.high.trans hhigh) _ ?_ ?_
    · rw [hidem]
      exact hself hfailed
    · intro heq c hc hcseq
      have href := hprev hfailed (hseq.symm.trans heq) c hc hcseq
      rwa [ClientCall.mayBeRefused, htame.accepted]

/-- Just below the number of the packet the connection is behind it. -/
theorem lt_of_high_none (hs : s.high = none) (hhigh : h = s.high.getD (hdr.seq - 1))
    (hpos : 1 ≤ Serial.dist b hdr.seq) (hle : Serial.dist b hdr.seq ≤ 2 ^ 31) :
    Serial.Lt h hdr.seq := by
  rw [hs, Option.getD_none] at hhigh
  have hdist := Serial.dist_sub_one (w := 31) hpos
  rw [hhigh]
  exact (lt_high_iff hpos hle (by omega)).1.mpr (by omega)

theorem rerunSafe_request (hinv : Consistent cfg b sys) (hsafe : RerunSafe sys.calls sys.server)
    (hcond : SeqsAccepted cfg sys (.request pkt env invoke))
    (hcall : ofCall sys.calls pkt.hdr = true) (hhint : ownHint sys.server pkt.hdr = true)
    (hboot : svrChkSboot cfg pkt.hdr = true)
    (hdo : doRequest cfg sys.server pkt env invoke = some s') : RerunSafe sys.calls s' := by
  rcases doRequest_cases hinv.sound.oneEntry hhint hdo with
    rfl | ⟨scte, hscte, hhigh, hfresh, -, hreq⟩
  · exact hsafe
  obtain ⟨⟨hpos, hle, hhigh31⟩, -⟩ := lookedUp_le hinv.calls hcall hinv.notAhead hhigh
  have hhigh' := high_eq hscte
  have hs := sound_lookedUp hinv.sound hhint
  have hzero := (lookedUp_spec hinv.sound.oneEntry hhint).2.1
  have hanswer : requestAnswer cfg sys.server pkt.hdr = some
      (requestDisposition (lookedUp cfg sys.server pkt.hdr) scte pkt.hdr).2 := by
    rw [requestAnswer, hboot, if_neg (by simp)]
    dsimp only
    rw [hzero, hscte]
    rfl
  -- a connection that was there is where it was
  have hlooked : ∀ h, sys.server.high = some h →
      scte.highSeq = h ∧ RerunSafe sys.calls (lookedUp cfg sys.server pkt.hdr) := by
    intro h hh
    rw [hh, Option.getD_some] at hhigh
    refine ⟨hhigh, fun h' hh' => ?_⟩
    rw [hhigh', hhigh, Option.some_inj] at hh'
    rw [← hh']
    exact hsafe h hh
  have hlate : isLateMaybe sys.server pkt.hdr = true → pkt.hdr.seqMaybe = true ∧
      scte.highSeq ≠ pkt.hdr.seq ∧ ¬ Serial.Lt scte.highSeq pkt.hdr.seq := by
    intro hlate
    obtain ⟨hmaybe, hany⟩ := of_decide_eq_true hlate
    obtain ⟨scte', hmem, hcmp⟩ := List.any_eq_true.mp hany
    obtain ⟨j, hj⟩ := List.mem_iff_getElem?.mp hmem
    rw [hinv.sound.oneEntry.eq_zero hj] at hj
    rw [(hlooked _ (high_eq hj)).1]
    exact ⟨hmaybe, of_decide_eq_true hcmp⟩
  cases hreq with
  | refused hdisp htame =>
    rcases hh : sys.server.high with _ | h
    · exact absurd (requestDisposition_fresh (hfresh hh) (lt_of_high_none hh hhigh hpos hle)) hdisp
    · exact (hlooked h hh).2.tame htame
  | current k hhandle hseq hk hacc =>
    rcases hh : sys.server.high with _ | h
    · rw [hh, Option.getD_none, ← hseq] at hhigh
      exact absurd hhigh.symm (ne_sub_one _)
    · refine (hlooked h hh).2.accept hinv.calls hcall hhigh' hk
        (fun _ => .inr (hs.linked.scte 0 scte hscte k hhandle)) ?_ hacc
      rintro rfl -
      rw [← hseq]
      rcases hcond.1 with hcond | hcond
      · exact absurd hseq.symm (hlate hcond).2.1
      · exact hcond
  | new scallp t u k ht hnew hu hacc =>
    obtain ⟨scte', hscte', hkey⟩ := exists_high (ht.high.trans hhigh')
    obtain ⟨hnc, -, haccepted, hraised, -, -, hhandle⟩ :=
      sctNewCall_cases (ht.sound hs).oneEntry hscte' hu
    rw [hkey] at hraised
    have hsafeu : RerunSafe sys.calls u := by
      intro h' hh' c hc hcseq hidem
      rw [haccepted]
      rw [hraised, Option.some_inj, raisedTo] at hh'
      split at hh'
      · rw [← hh']
        exact List.mem_cons_self
      · next hnot =>
        rcases hh : sys.server.high with _ | h
        · exact absurd (.inr (lt_of_high_none hh hhigh hpos hle)) hnot
        · refine List.mem_cons_of_mem _ ?_
          exact (hlooked h hh).2.tame ht h' (by rw [ht.high, hhigh', hh']) c hc hcseq hidem
    refine hsafeu.accept hinv.calls hcall hraised (fun sc hsc => (hnc.handle sc hsc).1) ?_ ?_ hacc
    · rintro rfl
      rcases hnew with ⟨rfl, hdisp⟩ | ⟨hdisp, hmaybe⟩
      · refine .inr ?_
        obtain rfl : scte = scte' := Option.some_inj.mp (hscte.symm.trans hscte')
        rcases hhandle with ⟨hreused, hsame⟩ | ⟨-, hnewhandle⟩
        · rw [hsame]
          refine hs.linked.scte 0 scte hscte k (sctReusedScall_handles (fun k hk => ?_) hreused)
          rw [hk] at hdisp
          exact sctInqScall_handles (congrArg Prod.fst hdisp)
        · exact hnewhandle
      · exact .inl (hcond.2 (hanswer.trans (by rw [hdisp])) hmaybe)
    · rintro rfl heq c hc hcseq
      rw [← heq] at hcseq
      have href : c.mayBeRefused sys.server = true := by
        rcases hcond.1 with hcond | hcond
        · obtain ⟨hmaybe, hne, hnot⟩ := hlate hcond
          rw [raisedTo, if_neg (by simp [hmaybe, hnot])] at heq
          exact absurd heq.symm hne
        · exact hcond c hc hcseq
      rw [ClientCall.mayBeRefused, haccepted, ht.accepted]
      rcases of_decide_eq_true href with hidem | hmem
      · exact decide_eq_true (.inl hidem)
      · exact decide_eq_true (.inr (List.mem_cons_of_mem _ hmem))

theorem rerunSafe_step (hinv : Consistent cfg b sys) (hsafe : RerunSafe sys.calls sys.server)
    (hcond : SeqsAccepted cfg sys ev) (hstep : serverStep cfg sys ev = some sys') :
    RerunSafe sys'.calls sys'.server := by
  rcases serverStep_cases hinv.sound.queueOk hstep with ⟨c, -, hfollows, rfl⟩ | ⟨hcalls, hstepped⟩
  · intro h hh c' hc' hseq hidem
    rcases List.mem_cons.mp hc' with rfl | hmem
    · -- the connection is not at a call that the client has only begun
      obtain ⟨c₁, hc₁, -⟩ := hinv.calls.first
      obtain ⟨d, hd⟩ := exists_head hc₁
      have hlt := (lt_of_follows hinv.calls hfollows).2 d (List.mem_of_head? hd)
      have hle := hinv.notAhead h hh d hd
      rw [← hseq] at hle
      omega
    · exact hsafe h hh c' hmem hseq hidem
  · rw [hcalls]
    cases hstepped with
    | tame htame => exact hsafe.tame htame
    | way e ex hdr force i c hev hex hpc hc htame =>
      rw [hev] at hcond
      exact (hsafe.way hinv.calls hc (hcond c hc) i).tame htame
    | request pkt env invoke hev hcall hhint hdo =>
      rw [hev] at hcond
      by_cases hboot : svrChkSboot cfg pkt.hdr = true
      · exact rerunSafe_request hinv hsafe hcond hcall hhint hboot hdo
      · rw [Bool.not_eq_true] at hboot
        rw [doRequest, if_pos hboot, Option.some_inj] at hdo
        rw [← hdo]
        exact hsafe

/-- **Only accepted calls are refused as reruns**, in every run that sets the
connection only to calls that may be refused. -/
theorem rerun_accepted {c₀ : ClientCall} {es : List ServerEvent}
    (hcond : Along (serverStep cfg) (SeqsAccepted cfg) (System.start c₀) es)
    (hrun : exec (serverStep cfg) (System.start c₀) es = some sys) :
    ∀ hdr, ofCall sys.calls hdr = true → ownHint sys.server hdr = true →
      requestAnswer cfg sys.server hdr = some .nonIdemRerun → hdr.seq ∈ sys.server.accepted := by
  have hinit : RerunSafe (System.start c₀).calls (System.start c₀).server :=
    fun h hh => by cases hh
  have hinv : Consistent cfg (c₀.seq - 1) sys ∧ RerunSafe sys.calls sys.server := by
    refine exec_invariant (I := fun sys => Consistent cfg (c₀.seq - 1) sys ∧
      RerunSafe sys.calls sys.server) ?_ ⟨consistent_start c₀, hinit⟩ hcond hrun
    intro sys ev sys' hI hP hstep
    exact ⟨consistent_step hI.1 hstep, rerunSafe_step hI.1 hI.2 hP hstep⟩
  intro hdr hcall hhint hanswer
  obtain ⟨-, hzero, scte, hscte, hhigh, -⟩ := lookedUp_spec hinv.1.sound.oneEntry hhint
  rw [requestAnswer] at hanswer
  split at hanswer
  · cases hanswer
  dsimp only at hanswer
  rw [hzero, hscte, Option.map_some, Option.some_inj] at hanswer
  obtain ⟨hseq, hidem⟩ := doRequestCommon_nonIdemRerun hanswer
  obtain ⟨c, hc, hcseq, hcidem, -⟩ := exists_of_ofCall hcall
  rcases hh : sys.server.high with _ | h
  · rw [hh, Option.getD_none, ← hseq] at hhigh
    exact absurd hhigh.symm (ne_sub_one _)
  · rw [hh, Option.getD_some, ← hseq] at hhigh
    rw [hhigh]
    exact hinv.2 h hh c hc (hcseq.trans hhigh) (hcidem.trans hidem)

/-! ### Runs -/

/-- Call 5 runs to its end and is acknowledged. -/
def ackedRun : List ServerEvent :=
  request 5 0 0 :: takeFirst 0 ++
    [.exec 0 (.wayLock true), .exec 0 (.wayAnswer true), .exec 0 (.wayDone .passed none {}),
      .exec 0 (.stubReturn {}), .ack { seq := 5, serverBoot := 1 }]

theorem rerun_accepted_ackedRun :
    ∃ sys, exec (serverStep bootOne) (System.start { seq := 5 }) ackedRun = some sys ∧
      requestAnswer bootOne sys.server (callPkt 5 0 0).hdr = some .nonIdemRerun ∧
      5 ∈ sys.server.accepted := by
  have hcond : Along (serverStep bootOne) (SeqsAccepted bootOne) (System.start { seq := 5 })
      ackedRun := by decide
  have hrun : ∃ sys, exec (serverStep bootOne) (System.start { seq := 5 }) ackedRun = some sys ∧
      ofCall sys.calls (callPkt 5 0 0).hdr = true ∧ ownHint sys.server (callPkt 5 0 0).hdr = true ∧
      requestAnswer bootOne sys.server (callPkt 5 0 0).hdr = some .nonIdemRerun := by
    decide
  obtain ⟨sys, hexec, hcall, hhint, hanswer⟩ := hrun
  exact ⟨sys, hexec, hanswer, rerun_accepted hcond hexec _ hcall hhint hanswer⟩

/-- The client is asked who it is on behalf of call 5, and has moved on to call 6,
whose request is still under way. -/
def overtakenRun : List ServerEvent :=
  request 5 0 0 :: takeFirst 0 ++
    [.exec 0 (.wayLock true), .clientCall { seq := 6 }, .exec 0 (.wayAnswer true)]

/-- After that run the first request of call 6 is refused as a rerun. -/
theorem first_request_refused :
    ¬ ∀ (cfg : ServerConfig) (c₀ : ClientCall) (es : List ServerEvent) (sys : System),
      exec (serverStep cfg) (System.start c₀) es = some sys →
        ∀ hdr, ofCall sys.calls hdr = true → ownHint sys.server hdr = true →
          requestAnswer cfg sys.server hdr = some .nonIdemRerun →
            hdr.seq ∈ sys.server.accepted := by
  intro h
  have hrun : ∃ sys, exec (serverStep bootOne) (System.start { seq := 5 }) overtakenRun = some sys ∧
      ofCall sys.calls (callPkt 6 0 0).hdr = true ∧ ownHint sys.server (callPkt 6 0 0).hdr = true ∧
      requestAnswer bootOne sys.server (callPkt 6 0 0).hdr = some .nonIdemRerun ∧
      ¬ 6 ∈ sys.server.accepted := by
    decide
  obtain ⟨sys, hexec, hcall, hhint, hanswer, hbad⟩ := hrun
  exact hbad (h _ _ _ sys hexec _ hcall hhint hanswer)

end Dg
