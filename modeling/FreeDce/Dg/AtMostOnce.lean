/-
At-most-once execution on the datagram server.

Every token of a call that is neither idempotent nor maybe lies at or before the
number the connection is at, and there is at most one (`Once`).  A new call gets
past the filter only from beyond that number, so it starts with no token and
gets one; the dispatch uses it up.  The argument needs that a handle is not
taken over for a new call while an executor that was started for the previous
one still waits for its first packet on it: such an executor finds the packets
of the new call (`dispatched_twice`).

* `dispatched_at_most_once` — in every run whose new calls take over spent
  handles, such a call enters the server stub at most once.
-/
import FreeDce.Dg.ServerReach

namespace Dg

open Runs

variable {cfg : ServerConfig} {sys sys' : System} {ev : ServerEvent} {b : BitVec 32}
  {calls : List ClientCall} {s s' t u : Server} {k : ℕ} {h : BitVec 32} {pkt : Pkt}
  {hdr : PktHdr} {env : CallEnv} {invoke : InvokeResult} {scte : SctElt}

/-- If the request begins a new call on a handle that exists, then no executor waits
for its first packet on that handle. -/
def handleIsSpent (cfg : ServerConfig) (s : Server) (hdr : PktHdr) : Bool :=
  let t := lookedUp cfg s hdr
  (t.sct[(sctGet cfg s.sct hdr.ahint.toNat hdr.seq).2]?).all fun scte =>
    let (scallp, disposition) := requestDisposition t scte hdr
    disposition ≠ .newCall ∨
      (sctReusedScall t scte scallp hdr).all fun k =>
        t.execs.all fun ex => ex.scall ≠ k ∨ ex.pc.waiting = false

/-- New calls that must run once take over spent handles only. -/
def SpentHandles (cfg : ServerConfig) (sys : System) : ServerEvent → Prop
  | .request pkt _ _ =>
    pkt.hdr.seqIdem = false → pkt.hdr.seqMaybe = false →
      handleIsSpent cfg sys.server pkt.hdr = true
  | _ => True

instance : Decidable (SpentHandles cfg sys ev) := by
  cases ev <;> unfold SpentHandles <;> infer_instance

/-- A call that must run once has at most one token, and the connection is there. -/
def Once (b : BitVec 32) (calls : List ClientCall) (s : Server) : Prop :=
  ∀ n, 0 < s.tokens n → ∃ c ∈ calls, c.seq = n ∧
    (c.idem = false → c.maybe = false → s.tokens n ≤ 1 ∧
      ∃ h, s.high = some h ∧ Serial.dist b n ≤ Serial.dist b h)

/-- Without more tokens, and with the connection not taken back. -/
theorem Once.mono (honce : Once b calls s) (htokens : ∀ n, s'.tokens n ≤ s.tokens n)
    (hhigh : ∀ h, s.high = some h →
      ∃ h', s'.high = some h' ∧ Serial.dist b h ≤ Serial.dist b h') : Once b calls s' := by
  intro n hn
  obtain ⟨c, hc, hseq, hrest⟩ := honce n (hn.trans_le (htokens n))
  refine ⟨c, hc, hseq, fun hidem hmaybe => ?_⟩
  obtain ⟨hone, h, hh, hle⟩ := hrest hidem hmaybe
  obtain ⟨h', hh', hle'⟩ := hhigh h hh
  exact ⟨(htokens n).trans hone, h', hh', hle.trans hle'⟩

theorem Once.tame (honce : Once b calls s) (htame : Tame s s') : Once b calls s' :=
  honce.mono htame.tokens fun h hh => ⟨h, htame.high.trans hh, le_rfl⟩

theorem Once.cons (honce : Once b calls s) (c : ClientCall) : Once b (c :: calls) s := by
  intro n hn
  obtain ⟨c', hc', hrest⟩ := honce n hn
  exact ⟨c', List.mem_cons_of_mem c hc', hrest⟩

/-- The answer of a who-are-you callback does not take the connection back. -/
theorem Once.way (honce : Once b calls s) {c : ClientCall} (hc : calls.head? = some c)
    (hahead : NotAhead b calls s) (i : ℕ) : Once b calls (s.updScte i (wayRaise c.seq)) := by
  refine honce.mono (fun _ => le_rfl) fun h hh => ?_
  rcases high_wayRaise hh i with hsame | ⟨-, -, hraised⟩
  · exact ⟨h, hsame, le_rfl⟩
  · exact ⟨c.seq, hraised, hahead h hh c hc⟩

/-- Accepting a packet makes no token; backing its call out gives its token up before
the connection goes back by one. -/
theorem Once.accept (honce : Once b calls s) (hhigh : s.high = some h)
    (hpos : 1 ≤ Serial.dist b pkt.hdr.seq)
    (hk : ∀ sc, s.scalls[k]? = some sc → sc.callSeq = pkt.hdr.seq)
    (hacc : acceptPkt s k pkt env invoke = some s') : Once b calls s' := by
  rcases acceptPkt_cases hk hacc with htame | ⟨-, t, htame, htoken, rfl⟩
  · exact honce.tame htame
  have hback := high_backout pkt.hdr.seq (htame.high.trans hhigh)
    ((s.scalls[k]?).bind Scall.scte)
  intro n hn
  rw [backout_tokens] at hn ⊢
  have hle := htame.tokens n
  obtain ⟨c, hc, hseq, hrest⟩ := honce n (hn.trans_le hle)
  refine ⟨c, hc, hseq, fun hidem hmaybe => ?_⟩
  obtain ⟨hsingle, h', hh', hdist⟩ := hrest hidem hmaybe
  obtain rfl : h = h' := Option.some_inj.mp (hhigh.symm.trans hh')
  refine ⟨hle.trans hsingle, ?_⟩
  rcases hback with hsame | ⟨heq, hback⟩
  · exact ⟨h, hsame, hdist⟩
  · -- the token is not the one of the call that was backed out
    have hne : n ≠ h := by
      rintro rfl
      rw [heq] at htoken
      omega
    have hdist_ne : Serial.dist b n ≠ Serial.dist b h := fun hd => hne (Serial.dist_inj.mp hd)
    refine ⟨h - 1, hback, ?_⟩
    rw [heq] at hpos
    rw [Serial.dist_sub_one (w := 31) hpos]
    omega

/-- A new call that must run once comes from beyond the connection's number, where
there are no tokens. -/
theorem Once.newCall (honce : Once b calls s) (hcalls : Increasing b calls)
    (hs : s.Sound cfg) (hhigh : s.high = some h)
    (hhigh31 : Serial.dist b h ≤ 2 ^ 31) (hcall : ofCall calls hdr = true)
    (hscte : s.sct[0]? = some scte) {scallp : Option ℕ}
    (hnew : hdr.seqIdem = false → hdr.seqMaybe = false → Serial.Lt h hdr.seq ∧
      ∀ k, sctReusedScall s scte scallp hdr = some k →
        ∀ ex ∈ s.execs, ex.scall = k → ex.pc.waiting = false)
    (hu : sctNewCall s 0 scallp hdr = some (u, k)) : Once b calls u := by
  obtain ⟨c, hc, hseq, hidem, hmaybe⟩ := exists_of_ofCall hcall
  have hpos := hcalls.pos c hc
  have hle := hcalls.le c hc
  rw [hseq] at hpos hle
  obtain ⟨hnc, -, -, hraised, hvalid, -, hhandle⟩ := sctNewCall_cases hs.oneEntry hscte hu
  rw [show scte.highSeq = h from Option.some_inj.mp ((high_eq hscte).symm.trans hhigh)]
    at hraised hvalid
  intro n hn
  by_cases hself : n = hdr.seq
  · subst hself
    refine ⟨c, hc, hseq, fun hcidem hcmaybe => ?_⟩
    rw [hidem] at hcidem
    rw [hmaybe] at hcmaybe
    obtain ⟨hlt, hspent⟩ := hnew hcidem hcmaybe
    have hbeyond := (lt_high_iff hpos hle hhigh31).1.mp hlt
    have hnone : s.tokens hdr.seq = 0 := by
      by_contra hsome
      obtain ⟨c', hc', hseq', hrest⟩ := honce hdr.seq (Nat.pos_of_ne_zero hsome)
      obtain rfl := hcalls.eq_of_seq hc hc' (hseq.trans hseq'.symm)
      obtain ⟨-, h', hh', hdist⟩ := hrest (hidem.trans hcidem) (hmaybe.trans hcmaybe)
      obtain rfl : h = h' := Option.some_inj.mp (hhigh.symm.trans hh')
      omega
    have hadd : u.tokens hdr.seq ≤ s.tokens hdr.seq + 1 := by
      refine hnc.tokens_self fun ex hex hk => ?_
      rcases hhandle with ⟨hreused, -⟩ | ⟨rfl, -⟩
      · exact hspent k hreused ex hex hk
      · have := hs.valid ex hex
        omega
    refine ⟨by omega, hdr.seq, ?_, le_rfl⟩
    rw [hraised, raisedTo, if_pos (.inl hcmaybe)]
  · have hless := hnc.tokens_other hself
    obtain ⟨c', hc', hseq', hrest⟩ := honce n (hn.trans_le hless)
    refine ⟨c', hc', hseq', fun hcidem hcmaybe => ?_⟩
    obtain ⟨hsingle, h', hh', hdist⟩ := hrest hcidem hcmaybe
    obtain rfl : h = h' := Option.some_inj.mp (hhigh.symm.trans hh')
    exact ⟨hless.trans hsingle, _, hraised, hdist.trans (le_raisedTo hpos hle hhigh31 hvalid)⟩

theorem once_request (hinv : Consistent cfg b sys) (honce : Once b sys.calls sys.server)
    (hspent : SpentHandles cfg sys (.request pkt env invoke))
    (hcall : ofCall sys.calls pkt.hdr = true) (hhint : ownHint sys.server pkt.hdr = true)
    (hdo : doRequest cfg sys.server pkt env invoke = some s') : Once b sys.calls s' := by
  rcases doRequest_cases hinv.sound.oneEntry hhint hdo with
    rfl | ⟨scte, hscte, hhigh, -, -, hreq⟩
  · exact honce
  obtain ⟨⟨hpos, hle, hhigh31⟩, -⟩ := lookedUp_le hinv.calls hcall hinv.notAhead hhigh
  have hhigh' := high_eq hscte
  have hs := sound_lookedUp hinv.sound hhint
  have hlooked : Once b sys.calls (lookedUp cfg sys.server pkt.hdr) := by
    refine honce.mono quiet_lookedUp.tokens fun h hh => ⟨h, ?_, le_rfl⟩
    rw [hh, Option.getD_some] at hhigh
    rw [hhigh', hhigh]
  cases hreq with
  | refused hdisp htame => exact hlooked.tame htame
  | current k hhandle hseq hk hacc => exact hlooked.accept hhigh' hpos hk hacc
  | new scallp t u k ht hnew hu hacc =>
    have hhight := ht.high.trans hhigh'
    obtain ⟨scte', hscte', -⟩ := exists_high hhight
    obtain ⟨hnc, -, -, hraised, -⟩ := sctNewCall_cases (ht.sound hs).oneEntry hscte' hu
    have honceu : Once b sys.calls u := by
      refine (hlooked.tame ht).newCall hinv.calls (ht.sound hs) hhight hhigh31 hcall hscte' ?_ hu
      intro hidem hmaybe
      rcases hnew with ⟨rfl, hdisp⟩ | ⟨-, hmaybe'⟩
      · obtain rfl : scte = scte' := Option.some_inj.mp (hscte.symm.trans hscte')
        have hlt : Serial.Lt scte.highSeq pkt.hdr.seq := by
          rcases doRequestCommon_newCall (congrArg Prod.snd hdisp) with h | h | h
          · rw [hidem] at h
            cases h
          · exact h
          · rw [hmaybe] at h
            cases h
        refine ⟨hlt, fun k hreused ex hex hk => ?_⟩
        have hspent' := hspent hidem hmaybe
        rw [handleIsSpent] at hspent'
        dsimp only at hspent'
        rw [(lookedUp_spec hinv.sound.oneEntry hhint).2.1, hscte] at hspent'
        simp only [Option.all_some, hdisp, hreused, ne_eq, not_true, false_or,
          List.all_eq_true, decide_eq_true_eq] at hspent'
        rcases hspent' ex hex with hne | hwait
        · exact absurd hk hne
        · exact hwait
      · rw [hmaybe] at hmaybe'
        cases hmaybe'
    exact honceu.accept hraised hpos (fun sc hsc => (hnc.handle sc hsc).1) hacc

theorem once_step (hinv : Consistent cfg b sys) (honce : Once b sys.calls sys.server)
    (hspent : SpentHandles cfg sys ev) (hstep : serverStep cfg sys ev = some sys') :
    Once b sys'.calls sys'.server := by
  rcases serverStep_cases hinv.sound.queueOk hstep with ⟨c, -, -, rfl⟩ | ⟨hcalls, hstepped⟩
  · exact honce.cons c
  · rw [hcalls]
    cases hstepped with
    | tame htame => exact honce.tame htame
    | way e ex hdr force i c hev hex hpc hc htame =>
      exact (honce.way hc hinv.notAhead i).tame htame
    | request pkt env invoke hev hcall hhint hdo =>
      rw [hev] at hspent
      exact once_request hinv honce hspent hcall hhint hdo

/-- **At most once.**  A call that is neither idempotent nor maybe enters the server
stub at most once, in every run whose new calls take over spent handles. -/
theorem dispatched_at_most_once {c₀ : ClientCall} {es : List ServerEvent}
    (hspent : Along (serverStep cfg) (SpentHandles cfg) (System.start c₀) es)
    (hrun : exec (serverStep cfg) (System.start c₀) es = some sys) :
    ∀ c ∈ sys.calls, c.idem = false → c.maybe = false →
      (sys.server.dispatched.map PktHdr.seq).count c.seq ≤ 1 := by
  have hinit : Once (c₀.seq - 1) (System.start c₀).calls (System.start c₀).server :=
    fun n hn => absurd hn (lt_irrefl 0)
  have hinv : Consistent cfg (c₀.seq - 1) sys ∧ Once (c₀.seq - 1) sys.calls sys.server := by
    refine exec_invariant (I := fun sys => Consistent cfg (c₀.seq - 1) sys ∧
      Once (c₀.seq - 1) sys.calls sys.server) ?_ ⟨consistent_start c₀, hinit⟩ hspent hrun
    intro sys ev sys' hI hP hstep
    exact ⟨consistent_step hI.1 hstep, once_step hI.1 hI.2 hP hstep⟩
  intro c hc hidem hmaybe
  have hle : (sys.server.dispatched.map PktHdr.seq).count c.seq ≤ sys.server.tokens c.seq :=
    Nat.le_add_left _ _
  rcases Nat.eq_zero_or_pos (sys.server.tokens c.seq) with hzero | hpos
  · omega
  · obtain ⟨c', hc', hseq, hrest⟩ := hinv.2 c.seq hpos
    obtain rfl := hinv.1.calls.eq_of_seq hc' hc hseq
    exact hle.trans (hrest hidem hmaybe).1

/-! ### Runs -/

/-- Call 5 is validated and dispatched; its packet is duplicated on the way. -/
def onceRun : List ServerEvent :=
  request 5 0 0 :: takeFirst 0 ++
    [request 5 0 0, .exec 0 (.wayLock true), .exec 0 (.wayAnswer true),
      .exec 0 (.wayDone .passed none {}), request 5 0 0]

theorem dispatched_at_most_once_onceRun :
    ∃ sys, exec (serverStep bootOne) (System.start { seq := 5 }) onceRun = some sys ∧
      sys.server.dispatched.map PktHdr.seq = [5] ∧ ∀ c ∈ sys.calls, c.idem = false →
        c.maybe = false → (sys.server.dispatched.map PktHdr.seq).count c.seq ≤ 1 := by
  have hspent : Along (serverStep bootOne) (SpentHandles bootOne) (System.start { seq := 5 })
      onceRun := by decide
  have hrun : ∃ sys, exec (serverStep bootOne) (System.start { seq := 5 }) onceRun = some sys ∧
      sys.server.dispatched.map PktHdr.seq = [5] := by decide
  obtain ⟨sys, hexec, hone⟩ := hrun
  exact ⟨sys, hexec, hone, dispatched_at_most_once hspent hexec⟩

/-- While the client is asked who it is on behalf of call 5, call 6 orphans that
call and gets an executor on a handle of its own.  The answer then raises the
connection to the client's current call 7, so the executor of call 6 is still
waiting when call 8 takes the handle over, and gets a second executor. -/
def twiceRun : List ServerEvent :=
  request 5 0 0 :: takeFirst 0 ++
    [.exec 0 (.wayLock true), .clientCall { seq := 6 }, request 6 0 0, request 6 0 0,
      .clientCall { seq := 7 }, .exec 0 (.wayAnswer true), .clientCall { seq := 8 },
      request 8 pfFrag 0, request 8 (pfFrag ||| pfLastFrag) 1] ++
    takeFirst 1 ++ takeFirst 2

/-- At the end of that run both executors have dispatched call 8. -/
theorem dispatched_twice :
    ¬ ∀ (cfg : ServerConfig) (c₀ : ClientCall) (es : List ServerEvent) (sys : System),
      exec (serverStep cfg) (System.start c₀) es = some sys →
        ∀ c ∈ sys.calls, c.idem = false → c.maybe = false →
          (sys.server.dispatched.map PktHdr.seq).count c.seq ≤ 1 := by
  intro h
  have hrun : ∃ sys, exec (serverStep bootOne) (System.start { seq := 5 }) twiceRun = some sys ∧
      ¬ ∀ c ∈ sys.calls, c.idem = false → c.maybe = false →
        (sys.server.dispatched.map PktHdr.seq).count c.seq ≤ 1 := by
    decide
  obtain ⟨sys, hexec, hbad⟩ := hrun
  exact hbad (h _ _ _ sys hexec)

end Dg
