/-
Packets with any length in their header (`receive_packet` in cnrcvr.c, without `DEBUG`).

The length in the header of a packet is what the peer says, and nothing checks it: 0 is taken for
"not known yet", a length below the size of a header makes a packet that has none, and a length
above the size of a fragment buffer makes the reads go on behind its end.

* `reads_recv`, `receiveLoop_reads` — what the loop keeps, whatever the length says;
* `receivePacket_known` — the two ways in which a call ends once the length is known;
* `callSafe_iff` — when one call is safe;
* `dispatch_safe_iff` — when all calls on a stream are.
-/
import FreeDce.Cn.Receive
import FreeDce.Lib.Runs

namespace Cn

/-- `RPC_CN_PKT_SIZEOF_COMMON_HDR`. -/
def commonHdrSize : ℕ := 16

variable {localRep : IntRep} {s : List UInt8} {fbp : Fragbuf} {fragLen : ℕ} {ovf : Option Fragbuf}
  {sock : Socket}

/-- The overflow buffer, or the new one that stands for it. -/
def firstBuf (ovf : Option Fragbuf) : Fragbuf := ovf.getD (fragbufAlloc true)

/-- What has been read and not been returned, and what has not been read. -/
def streamLeft (ovf : Option Fragbuf) (sock : Socket) : List UInt8 :=
  (firstBuf ovf).data ++ sock.pending

/-- What one call has to do: it reads and copies within the buffers, and a packet that it returns is
as long as it says, has a header, and takes something off the stream. -/
structure CallSafe (localRep : IntRep) (ovf : Option Fragbuf) (sock : Socket) : Prop where
  inBuffer : (readPacket localRep ovf sock).1.data.length
    ≤ (readPacket localRep ovf sock).1.maxDataSize
  overflow : ∀ fbp o sock', receivePacket localRep ovf sock = some (fbp, some o, sock') →
    o.data.length ≤ o.maxDataSize
  whole : ∀ fbp ovf' sock', receivePacket localRep ovf sock = some (fbp, ovf', sock') →
    commonHdrSize ≤ fbp.data.length ∧ fragLength localRep fbp.data = fbp.data.length
  consumes : ∀ fbp ovf' sock', receivePacket localRep ovf sock = some (fbp, ovf', sock') →
    (streamLeft ovf' sock').length < (streamLeft ovf sock).length

/-- The length that the header gives does no harm: it is one that a packet can have, or the stream
ends before it matters. -/
def Harmless (localRep : IntRep) (ovf : Option Fragbuf) (sock : Socket) : Prop :=
  let s := streamLeft ovf sock
  let fragLen := fragLength localRep s
  fraglenHeaderBytes ≤ s.length →
    if fragLen = 0 then
      (firstBuf ovf).data.length < fraglenHeaderBytes ∧ s.length < largeFragSize
    else if fragLen < commonHdrSize then s.length < fragLen
    else fragLen ≤ largeFragSize ∨ s.length ≤ largeFragSize

/-- The overflow buffer is a large one, and holds what it can. -/
def Carried (ovf : Option Fragbuf) : Prop :=
  (firstBuf ovf).maxDataSize = largeFragSize ∧ (firstBuf ovf).data.length ≤ largeFragSize

theorem carried_none : Carried none := ⟨rfl, Nat.zero_le _⟩

/-! ### The loop -/

/-- Where the loop is on stream `s`: the length is known as soon as it can be told. -/
structure Reads (localRep : IntRep) (s : List UInt8) (fbp : Fragbuf) (fragLen : ℕ) (sock : Socket) :
    Prop where
  stream : fbp.data ++ sock.pending = s
  maxDataSize : fbp.maxDataSize = largeFragSize
  length_le : fbp.data.length ≤ max largeFragSize (fragLength localRep s)
  fragLen : fragLen = if fraglenHeaderBytes ≤ fbp.data.length then fragLength localRep s else 0

theorem fragLength_of_begins {data pending : List UInt8} (h : data ++ pending = s)
    (hdata : fraglenHeaderBytes ≤ data.length) :
    fragLength localRep data = fragLength localRep s := by
  have hlen := congrArg List.length h
  rw [List.length_append] at hlen
  have happend : data ++ pending = s ++ [] := h.trans (List.append_nil s).symm
  exact fragLength_of_append happend hdata (by omega)

theorem reads_recv (h : Reads localRep s fbp fragLen sock) (len : ℕ)
    (hlen : (len : ℤ) ≤ needBytes fbp fragLen) :
    Reads localRep s { fbp with data := fbp.data ++ (sock.recvmsg len).1 }
      (if fragLen = 0 ∧ fraglenHeaderBytes ≤ (fbp.data ++ (sock.recvmsg len).1).length then
        fragLength localRep (fbp.data ++ (sock.recvmsg len).1) else fragLen)
      (sock.recvmsg len).2 := by
  have hstream : (fbp.data ++ (sock.recvmsg len).1) ++ (sock.recvmsg len).2.pending = s := by
    rw [List.append_assoc, recvmsg_append, h.stream]
  have hread := recvmsg_length_le sock len
  have hfrag := h.fragLen
  rw [needBytes, h.maxDataSize] at hlen
  refine ⟨hstream, h.maxDataSize, ?_, ?_⟩
  · -- a read asks for the rest of the buffer, or for the rest of the packet
    rw [List.length_append]
    by_cases hknown : fraglenHeaderBytes ≤ fbp.data.length
    · rw [if_pos hknown] at hfrag
      split_ifs at hlen <;> omega
    · rw [if_neg hknown] at hfrag
      rw [if_pos hfrag] at hlen
      omega
  · dsimp only
    by_cases hknown : fraglenHeaderBytes ≤ fbp.data.length
    · have hlonger : fraglenHeaderBytes ≤ (fbp.data ++ (sock.recvmsg len).1).length := by
        rw [List.length_append]
        omega
      rw [if_pos hknown] at hfrag
      rw [if_pos hlonger, fragLength_of_begins hstream hlonger, ← hfrag, ite_self]
    · rw [if_neg hknown] at hfrag
      by_cases hnow : fraglenHeaderBytes ≤ (fbp.data ++ (sock.recvmsg len).1).length
      · rw [if_pos ⟨hfrag, hnow⟩, if_pos hnow, fragLength_of_begins hstream hnow]
      · rw [if_neg (fun hboth => hnow hboth.2), if_neg hnow, hfrag]

/-- The loop ends when no more is needed, or with the stream. -/
theorem receiveLoop_reads : ∀ {n fragLen : ℕ} {fbp : Fragbuf} {sock : Socket},
    Reads localRep s fbp fragLen sock → sock.pending.length ≤ n →
    ∃ fbp' fragLen' sock', receiveLoop localRep n fbp fragLen (needBytes fbp fragLen) sock
        = (fbp', fragLen', needBytes fbp' fragLen', sock') ∧
      Reads localRep s fbp' fragLen' sock' ∧
      (needBytes fbp' fragLen' ≤ 0 ∨ sock'.pending = []) := by
  intro n
  induction n with
  | zero =>
    intro fragLen fbp sock h hn
    exact ⟨fbp, fragLen, sock, rfl, h, .inr (List.length_eq_zero_iff.mp (Nat.le_zero.mp hn))⟩
  | succ n ih =>
    intro fragLen fbp sock h hn
    rw [receiveLoop]
    by_cases hneed : needBytes fbp fragLen ≤ 0
    · exact ⟨fbp, fragLen, sock, if_pos hneed, h, .inl hneed⟩
    · have hnext := reads_recv h (needBytes fbp fragLen).toNat (by omega)
      have hsplit := congrArg List.length (recvmsg_append sock (needBytes fbp fragLen).toNat)
      rw [List.length_append] at hsplit
      rw [if_neg hneed]
      dsimp only
      by_cases hbytes : (sock.recvmsg (needBytes fbp fragLen).toNat).1 = []
      · -- the connection was closed: there was nothing left to read
        have hpending : sock.pending = [] := by
          by_contra hne
          exact recvmsg_ne_nil _ (by omega) hne hbytes
        rw [hbytes, List.append_nil] at hnext
        have hsame : sock.pending = (sock.recvmsg (needBytes fbp fragLen).toNat).2.pending := by
          rw [hpending, Socket.recvmsg, hpending, List.drop_nil]
        refine ⟨fbp, fragLen, _, if_pos hbytes, ⟨?_, h.maxDataSize, h.length_le, h.fragLen⟩, ?_⟩
        · rw [← hsame]
          exact h.stream
        · rw [← hsame]
          exact .inr hpending
      · rw [if_neg hbytes]
        have hpos := List.length_pos_iff.mpr hbytes
        exact ih hnext (by omega)

/-! ### One call -/

theorem startReading_eq (h : Reads localRep s fbp fragLen sock)
    (hlen : fraglenHeaderBytes ≤ fbp.data.length → fragLength localRep s ≠ 0) :
    startReading localRep fbp = (fragLen, needBytes fbp fragLen) := by
  have hfrag := h.fragLen
  rw [startReading]
  by_cases hknown : fraglenHeaderBytes ≤ fbp.data.length
  · rw [if_pos hknown] at hfrag
    rw [if_pos hknown, fragLength_of_begins h.stream hknown, needBytes, hfrag, if_neg (hlen hknown)]
  · rw [if_neg hknown] at hfrag
    rw [if_neg hknown, needBytes, if_pos hfrag, hfrag]

/-- The reads of a call, unless it begins with a packet that says it is empty. -/
theorem readPacket_reads (hovf : Carried ovf)
    (hlen : fraglenHeaderBytes ≤ (firstBuf ovf).data.length →
      fragLength localRep (streamLeft ovf sock) ≠ 0) :
    ∃ fbp fragLen sock', readPacket localRep ovf sock
        = (fbp, fragLen, needBytes fbp fragLen, sock') ∧
      Reads localRep (streamLeft ovf sock) fbp fragLen sock' ∧
      (needBytes fbp fragLen ≤ 0 ∨ sock'.pending = []) := by
  have h : Reads localRep (streamLeft ovf sock) (firstBuf ovf)
      (if fraglenHeaderBytes ≤ (firstBuf ovf).data.length then
        fragLength localRep (streamLeft ovf sock) else 0) sock :=
    ⟨rfl, hovf.1, hovf.2.trans (Nat.le_max_left _ _), rfl⟩
  obtain ⟨fbp, fragLen, sock', hloop, hreads, hend⟩ := receiveLoop_reads h le_rfl
  refine ⟨fbp, fragLen, sock', ?_, hreads, hend⟩
  rw [readPacket, ← firstBuf, startReading_eq h hlen]
  exact hloop

/-- A call that begins with a packet that says it is empty takes nothing off the stream. -/
theorem receivePacket_empty (hfirst : fraglenHeaderBytes ≤ (firstBuf ovf).data.length)
    (hzero : fragLength localRep (streamLeft ovf sock) = 0) :
    ∃ ovf' sock', receivePacket localRep ovf sock
      = some ({ firstBuf ovf with data := [] }, ovf', sock') := by
  have hlen : fragLength localRep (firstBuf ovf).data = 0 :=
    (fragLength_of_begins rfl hfirst).trans hzero
  have hpos : 0 < fraglenHeaderBytes := by decide
  have hneed : ((0 : ℕ) : ℤ) - (firstBuf ovf).data.length < 0 := by omega
  have hstart : startReading localRep (firstBuf ovf)
      = (0, ((0 : ℕ) : ℤ) - (firstBuf ovf).data.length) := by
    rw [startReading, if_pos hfirst, hlen]
  have hread : readPacket localRep ovf sock
      = (firstBuf ovf, 0, ((0 : ℕ) : ℤ) - (firstBuf ovf).data.length, sock) := by
    rw [readPacket, ← firstBuf, hstart]
    dsimp only
    cases sock.pending.length with
    | zero => rfl
    | succ n => exact if_pos hneed.le
  refine ⟨some { fragbufAlloc true with data := (firstBuf ovf).data.drop 0 }, sock, ?_⟩
  rw [receivePacket, hread]
  dsimp only
  rw [if_neg hneed.not_gt, if_pos hneed, List.take_zero]

/-- How a call ends whose reads leave off in `fbp`: the packet is there, or the stream has ended. -/
inductive Outcome (localRep : IntRep) (ovf : Option Fragbuf) (sock : Socket) (fbp : Fragbuf)
    (fragLen : ℕ) : Prop
  | returned (ovf' : Option Fragbuf) (sock' : Socket) (hle : fragLen ≤ fbp.data.length)
      (heq : receivePacket localRep ovf sock
        = some ({ fbp with data := fbp.data.take fragLen }, ovf', sock'))
      (hrest : streamLeft ovf' sock' = (streamLeft ovf sock).drop fragLen)
      (hovf : (firstBuf ovf').data.length ≤ fbp.data.length ∧
        (firstBuf ovf').maxDataSize = largeFragSize)
  | closed (hall : fbp.data.length = (streamLeft ovf sock).length)
      (hlt : (streamLeft ovf sock).length < fragLen)
      (heq : receivePacket localRep ovf sock = none)

/-- A call that gets to know a length other than 0. -/
theorem receivePacket_known (hovf : Carried ovf)
    (hten : fraglenHeaderBytes ≤ (streamLeft ovf sock).length)
    (hne : fragLength localRep (streamLeft ovf sock) ≠ 0) :
    ∃ fbp, (readPacket localRep ovf sock).1 = fbp ∧
      fbp.maxDataSize = largeFragSize ∧
      fbp.data.length ≤ max largeFragSize (fragLength localRep (streamLeft ovf sock)) ∧
      fbp.data <+: streamLeft ovf sock ∧
      Outcome localRep ovf sock fbp (fragLength localRep (streamLeft ovf sock)) := by
  obtain ⟨fbp, fragLen, sock', hread, hreads, hend⟩ := readPacket_reads hovf fun _ => hne
  refine ⟨fbp, by rw [hread], hreads.maxDataSize, hreads.length_le, ⟨_, hreads.stream⟩, ?_⟩
  have hstream := hreads.stream
  have hlen := congrArg List.length hstream
  rw [List.length_append] at hlen
  -- the length is known in the end, as there are at least ten bytes
  have hknown : fraglenHeaderBytes ≤ fbp.data.length := by
    rcases hend with hneed | hnil
    · by_contra hunknown
      have hfrag := hreads.fragLen
      rw [if_neg hunknown] at hfrag
      rw [needBytes, if_pos hfrag, hreads.maxDataSize, largeFragSize] at hneed
      rw [fraglenHeaderBytes] at hunknown
      omega
    · rw [hnil, List.length_nil] at hlen
      omega
  have hfrag := hreads.fragLen
  rw [if_pos hknown] at hfrag
  subst hfrag
  set n := fragLength localRep (streamLeft ovf sock) with hn
  have hneed : needBytes fbp n = (n : ℤ) - fbp.data.length := by rw [needBytes, if_neg hne]
  rw [hneed] at hend hread
  by_cases hle : n ≤ fbp.data.length
  · have hdrop : (streamLeft ovf sock).drop n = fbp.data.drop n ++ sock'.pending := by
      rw [← hstream, List.drop_append_of_le_length hle]
    by_cases hexcess : n < fbp.data.length
    · refine .returned (some { fragbufAlloc true with data := fbp.data.drop n }) sock' hle ?_
        hdrop.symm ⟨?_, rfl⟩
      · rw [receivePacket, hread]
        dsimp only
        rw [if_neg (by omega), if_pos (by omega)]
      · rw [firstBuf, Option.getD_some, List.length_drop]
        omega
    · refine .returned none sock' hle ?_ ?_ ⟨Nat.zero_le _, rfl⟩
      · rw [receivePacket, hread]
        dsimp only
        rw [if_neg (by omega), if_neg (by omega), List.take_of_length_le (not_lt.mp hexcess)]
      · rw [hdrop, List.drop_of_length_le (not_lt.mp hexcess)]
        rfl
  · have hnil : sock'.pending = [] := hend.resolve_left (by omega)
    rw [hnil, List.length_nil, Nat.add_zero] at hlen
    refine .closed hlen (by omega) ?_
    rw [receivePacket, hread]
    exact if_pos (by omega)

/-- A call whose stream ends before a length is known, or says that the packet is empty and has not
been read so far. -/
theorem receivePacket_unknown (hovf : Carried ovf)
    (hfirst : (firstBuf ovf).data.length < fraglenHeaderBytes)
    (hzero : fraglenHeaderBytes ≤ (streamLeft ovf sock).length →
      fragLength localRep (streamLeft ovf sock) = 0) :
    ∃ fbp, (readPacket localRep ovf sock).1 = fbp ∧ fbp.maxDataSize = largeFragSize ∧
      fbp.data.length ≤ largeFragSize ∧ fbp.data <+: streamLeft ovf sock ∧
      ((streamLeft ovf sock).length < largeFragSize ∧ receivePacket localRep ovf sock = none ∨
        largeFragSize ≤ (streamLeft ovf sock).length ∧ fbp.data.length = largeFragSize ∧
          ∃ ovf' sock', receivePacket localRep ovf sock = some (fbp, ovf', sock')) := by
  obtain ⟨fbp, fragLen, sock', hread, hreads, hend⟩ :=
    @readPacket_reads localRep ovf sock hovf fun h => absurd h (by omega)
  have hlen := congrArg List.length hreads.stream
  rw [List.length_append] at hlen
  have hfrag : fragLen = 0 := by
    rw [hreads.fragLen]
    split_ifs with hknown
    · exact hzero (by omega)
    · rfl
  subst hfrag
  have hneed : needBytes fbp 0 = (largeFragSize : ℤ) - fbp.data.length := by
    rw [needBytes, if_pos rfl, hreads.maxDataSize]
  have hmax : fbp.data.length ≤ largeFragSize := by
    have hle := hreads.length_le
    by_cases hten : fraglenHeaderBytes ≤ (streamLeft ovf sock).length
    · rw [hzero hten] at hle
      omega
    · rw [fraglenHeaderBytes] at hten
      rw [largeFragSize]
      omega
  rw [hneed] at hend hread
  refine ⟨fbp, by rw [hread], hreads.maxDataSize, hmax, ⟨_, hreads.stream⟩, ?_⟩
  rw [receivePacket, hread]
  dsimp only
  by_cases hfull : fbp.data.length = largeFragSize
  · refine .inr ⟨by omega, hfull, none, sock', ?_⟩
    rw [if_neg (by omega), if_neg (by omega)]
  · have hnil : sock'.pending = [] := hend.resolve_left (by omega)
    rw [hnil, List.length_nil] at hlen
    exact .inl ⟨by omega, if_pos (by omega)⟩

theorem callSafe_of_none (hnone : receivePacket localRep ovf sock = none)
    (hmax : (readPacket localRep ovf sock).1.data.length
      ≤ (readPacket localRep ovf sock).1.maxDataSize) : CallSafe localRep ovf sock := by
  refine ⟨hmax, ?_, ?_, ?_⟩ <;> intro fbp o sock' h <;> rw [hnone] at h <;> cases h

/-- A call that returns a packet is safe if that one call's results are. -/
theorem callSafe_of_some {packet : Fragbuf} {ovf' : Option Fragbuf} {sock' : Socket}
    (hsome : receivePacket localRep ovf sock = some (packet, ovf', sock'))
    (hmax : (readPacket localRep ovf sock).1.data.length
      ≤ (readPacket localRep ovf sock).1.maxDataSize)
    (hovf : (firstBuf ovf').data.length ≤ (firstBuf ovf').maxDataSize)
    (hwhole : commonHdrSize ≤ packet.data.length ∧
      fragLength localRep packet.data = packet.data.length)
    (hless : (streamLeft ovf' sock').length < (streamLeft ovf sock).length) :
    CallSafe localRep ovf sock := by
  refine ⟨hmax, ?_, ?_, ?_⟩ <;> intro fbp o sock'' h <;> rw [hsome] at h <;> cases h
  · exact hovf
  · exact hwhole
  · exact hless

/-- Fewer bytes than are needed for a length. -/
theorem callSafe_of_short (hovf : Carried ovf)
    (hten : (streamLeft ovf sock).length < fraglenHeaderBytes) : CallSafe localRep ovf sock := by
  have hfirst : (firstBuf ovf).data.length < fraglenHeaderBytes := by
    have hlen : (streamLeft ovf sock).length
        = (firstBuf ovf).data.length + sock.pending.length := List.length_append
    omega
  obtain ⟨fbp, hfbp, hsize, hmax, -, hend⟩ :=
    @receivePacket_unknown localRep ovf sock hovf hfirst fun h => absurd h (not_le.mpr hten)
  rw [fraglenHeaderBytes] at hten
  rcases hend with ⟨-, hnone⟩ | ⟨hge, -⟩
  · refine callSafe_of_none hnone ?_
    rw [hfbp, hsize]
    exact hmax
  · rw [largeFragSize] at hge
    omega

/-- A length of 0, which reads as one that is not known yet. -/
theorem callSafe_iff_of_zero (hovf : Carried ovf)
    (hzero : fragLength localRep (streamLeft ovf sock) = 0) :
    CallSafe localRep ovf sock ↔ (firstBuf ovf).data.length < fraglenHeaderBytes ∧
      (streamLeft ovf sock).length < largeFragSize := by
  by_cases hfirst : (firstBuf ovf).data.length < fraglenHeaderBytes
  · obtain ⟨fbp, hfbp, hsize, hmax, hbegins, hend⟩ :=
      receivePacket_unknown hovf hfirst fun _ => hzero
    rcases hend with ⟨hlt, hnone⟩ | ⟨hge, hfull, ovf', sock', hsome⟩
    · refine iff_of_true (callSafe_of_none hnone ?_) ⟨hfirst, hlt⟩
      rw [hfbp, hsize]
      exact hmax
    · -- the full buffer is taken for the packet
      refine iff_of_false (fun h => ?_) fun h => absurd h.2 (by omega)
      obtain ⟨pending, hpending⟩ := hbegins
      have hlen := (h.whole _ _ _ hsome).2
      rw [fragLength_of_begins hpending (by rw [hfull]; decide), hzero, hfull] at hlen
      exact absurd hlen (by decide)
  · refine iff_of_false (fun h => ?_) fun h => hfirst h.1
    obtain ⟨ovf', sock', hsome⟩ := receivePacket_empty (not_lt.mp hfirst) hzero
    have hwhole : commonHdrSize ≤ 0 := (h.whole _ _ _ hsome).1
    exact absurd hwhole (by decide)

/-- Any other length. -/
theorem callSafe_iff_of_known (hovf : Carried ovf)
    (hten : fraglenHeaderBytes ≤ (streamLeft ovf sock).length)
    (hzero : fragLength localRep (streamLeft ovf sock) ≠ 0) :
    CallSafe localRep ovf sock ↔
      if fragLength localRep (streamLeft ovf sock) < commonHdrSize then
        (streamLeft ovf sock).length < fragLength localRep (streamLeft ovf sock)
      else fragLength localRep (streamLeft ovf sock) ≤ largeFragSize ∨
        (streamLeft ovf sock).length ≤ largeFragSize := by
  obtain ⟨fbp, hfbp, hsize, hmax, ⟨pending, hpending⟩, hend⟩ :=
    receivePacket_known hovf hten hzero
  set n := fragLength localRep (streamLeft ovf sock) with hn
  have hlen := congrArg List.length hpending
  rw [List.length_append] at hlen
  have hin : (readPacket localRep ovf sock).1.data.length
      ≤ (readPacket localRep ovf sock).1.maxDataSize ↔ fbp.data.length ≤ largeFragSize := by
    rw [hfbp, hsize]
  cases hend with
  | returned ovf' sock' hle heq hrest hovf' =>
    have htake : (fbp.data.take n).length = n := List.length_take_of_le hle
    split_ifs with hshort
    · -- a packet without a header
      refine iff_of_false (fun h => ?_) (by omega)
      have hwhole := (h.whole _ _ _ heq).1
      rw [htake] at hwhole
      omega
    · by_cases hbig : n ≤ largeFragSize
      · have hbegins : fbp.data.take n ++ (fbp.data.drop n ++ pending) = streamLeft ovf sock := by
          rw [← List.append_assoc, List.take_append_drop, hpending]
        have hhdr : fraglenHeaderBytes ≤ (fbp.data.take n).length := by
          rw [htake]
          rw [commonHdrSize] at hshort
          rw [fraglenHeaderBytes]
          omega
        refine iff_of_true (callSafe_of_some heq ?_ ?_ ⟨?_, ?_⟩ ?_) (.inl hbig)
        · rw [hin]
          omega
        · rw [hovf'.2]
          omega
        · show commonHdrSize ≤ (fbp.data.take n).length
          omega
        · show fragLength localRep (fbp.data.take n) = (fbp.data.take n).length
          rw [fragLength_of_begins hbegins hhdr, htake]
        · rw [hrest, List.length_drop]
          omega
      · -- the read for the rest of the packet ran over the end of the buffer
        refine iff_of_false (fun h => ?_) (by omega)
        have hbuf := hin.mp h.inBuffer
        omega
  | closed hall hlt heq =>
    by_cases hfits : fbp.data.length ≤ largeFragSize
    · refine iff_of_true (callSafe_of_none heq (hin.mpr hfits)) ?_
      split_ifs
      · exact hlt
      · exact .inr (by omega)
    · refine iff_of_false (fun h => hfits (hin.mp h.inBuffer)) ?_
      rw [commonHdrSize]
      rw [largeFragSize] at hfits hmax ⊢
      split_ifs <;> omega

/-- **One call.** -/
theorem callSafe_iff (hovf : Carried ovf) :
    CallSafe localRep ovf sock ↔ Harmless localRep ovf sock := by
  rw [Harmless]
  by_cases hten : fraglenHeaderBytes ≤ (streamLeft ovf sock).length
  · rw [imp_iff_right hten]
    by_cases hzero : fragLength localRep (streamLeft ovf sock) = 0
    · rw [if_pos hzero]
      exact callSafe_iff_of_zero hovf hzero
    · rw [if_neg hzero]
      exact callSafe_iff_of_known hovf hten hzero
  · exact iff_of_true (callSafe_of_short hovf (not_le.mp hten)) fun h => absurd h hten

/-! ### The calls of `receive_dispatch` -/

/-- One turn of the loop of `receive_dispatch`, as far as the stream is concerned. -/
def dispatchNext (localRep : IntRep) (s : Option Fragbuf × Socket) (_ : Unit) :
    Option (Option Fragbuf × Socket) :=
  (receivePacket localRep s.1 s.2).map Prod.snd

theorem receivePacket_ovf_size {fbp' o : Fragbuf} {sock' : Socket}
    (h : receivePacket localRep ovf sock = some (fbp', some o, sock')) :
    o.maxDataSize = largeFragSize := by
  rw [receivePacket] at h
  dsimp only at h
  split_ifs at h
  · cases h
    rfl
  · cases h

theorem CallSafe.carried (h : CallSafe localRep ovf sock) {fbp' : Fragbuf} {ovf' : Option Fragbuf}
    {sock' : Socket} (hsome : receivePacket localRep ovf sock = some (fbp', ovf', sock')) :
    Carried ovf' := by
  cases ovf' with
  | none => exact carried_none
  | some o =>
    have hsize := receivePacket_ovf_size hsome
    have hle := h.overflow _ _ _ hsome
    rw [hsize] at hle
    exact ⟨hsize, hle⟩

/-- **Framing on any stream.**  All calls are safe exactly where all the lengths that are met do no
harm. -/
theorem dispatch_safe_iff (localRep : IntRep) (stream : List UInt8) (splits : ℕ → ℕ)
    (calls : List Unit) :
    Runs.Along (dispatchNext localRep) (fun s _ => CallSafe localRep s.1 s.2)
        (none, { pending := stream, splits := splits }) calls ↔
      Runs.Along (dispatchNext localRep) (fun s _ => Harmless localRep s.1 s.2)
        (none, { pending := stream, splits := splits }) calls := by
  refine Runs.along_iff_along (I := fun s => Carried s.1) (fun s _ hovf => ?_) carried_none
  refine ⟨callSafe_iff hovf, fun s' hs' hharmless => ?_⟩
  obtain ⟨⟨fbp', ovf', sock'⟩, hsome, rfl⟩ := Option.map_eq_some_iff.mp hs'
  exact ((callSafe_iff hovf).mpr hharmless).carried hsome

/-- A header that says that the packet has one byte. -/
def onePdu : List UInt8 := [5, 0, 11, 3, 0x10, 0, 0, 0, 1, 0, 0, 0, 0, 0, 0, 1]

/-- The packet that is returned is one byte long. -/
theorem not_dispatch_safe :
    ¬ Runs.Along (dispatchNext .littleEndian) (fun s _ => CallSafe .littleEndian s.1 s.2)
        (none, { pending := onePdu, splits := fun _ => 16 }) [()] := by
  rintro ⟨h, -⟩
  exact absurd (h.whole _ _ _ rfl).1 (by decide)

end Cn
