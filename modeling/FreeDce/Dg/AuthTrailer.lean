/-
Where the authentication trailer of a fragment is (`rpc__dg_call_receive_int` in dg.c).

The bytes of a fragment lie in one or more buffers, and the trailer behind the rounded body can lie
in the buffer where the body ends, in the next one, or in both.  The code finds the buffer where the
body ends, puts a trailer that is not in one piece together, cuts that buffer off behind the body for
the check, and frees the buffers after it when the check is successful.

* `findLast_spec` — the buffer where the body ends;
* `checksum_eq` — the bytes that are handed to the check;
* `handedOut_cut` — the data that is returned;
* `trailer_located` — the whole of it.
-/
import Mathlib

namespace Dg

namespace AuthTrailer

def rawPktHdrSize : ℕ := 80

/-- `rpc_dg_recvq_elt_t`: `args` is the whole buffer, `len` is `pkt_len` less the header, which only
the first buffer of a fragment has. -/
structure Buf where
  ptr : ℕ
  args : List UInt8
  len : ℕ
  len_le : len ≤ args.length

def Buf.bytes (b : Buf) : List UInt8 := b.args.take b.len

/-- `memcpy` of `n` bytes from `off` on. -/
def Buf.read (b : Buf) (off n : ℕ) : List UInt8 := (b.args.drop off).take n

/-- The buffer with `pkt_len` set to less. -/
def Buf.cut (b : Buf) (n : ℕ) (h : n ≤ b.len) : Buf := { b with len := n, len_le := h.trans b.len_le }

structure Epv where
  authProto : BitVec 8
  blocksize : ℕ
  overhead : ℕ
  blocksize_pos : 0 < blocksize := by decide

/-- The fragment at the head of the queue; `hdrLen` is `hdrp->len`. -/
structure Frag where
  hdrLen : BitVec 16
  authProto : BitVec 8
  head : Buf
  more : List Buf

def Frag.bufs (f : Frag) : List Buf := f.head :: f.more

/-- The bytes of the fragment behind its header. -/
def Frag.bytes (f : Frag) : List UInt8 := (f.bufs.map Buf.bytes).flatten

def Frag.fragLen (f : Frag) : ℕ := rawPktHdrSize + (f.bufs.map Buf.len).sum

/-- `raw_bodysize`. -/
def rawBodysize (epv : Epv) (f : Frag) : ℕ :=
  (f.hdrLen.toNat + epv.blocksize - 1) / epv.blocksize * epv.blocksize

/-- The check that the trailer is in the packet, and of the expected type. -/
def Passes (epv : Epv) (f : Frag) : Prop :=
  rawPktHdrSize + rawBodysize epv f + epv.overhead ≤ f.fragLen ∧ f.authProto = epv.authProto

instance (epv : Epv) (f : Frag) : Decidable (Passes epv f) := inferInstanceAs (Decidable (_ ∧ _))

/-- `last_rqe` with the buffers before and after it, and `pkt_bodysize`. -/
structure Spot where
  before : List Buf
  last : Buf
  after : List Buf
  body : ℕ
  body_le : body ≤ last.len

/-- The loop that looks for the buffer where the body ends. -/
def findLast (raw : ℕ) (before : List Buf) (b : Buf) : List Buf → Spot
  | [] => ⟨before, b, [], min raw b.len, Nat.min_le_right _ _⟩
  | next :: rest =>
    if 0 < raw - min raw b.len then findLast (raw - min raw b.len) (before ++ [b]) next rest
    else ⟨before, b, next :: rest, min raw b.len, Nat.min_le_right _ _⟩

/-- The trailer as it is handed to the check; `none` is the failed assertion that there is another
buffer. -/
def checksum (epv : Epv) (s : Spot) : Option (List UInt8) :=
  if s.last.len < s.body + epv.overhead then
    let len := s.last.len - s.body
    match s.after with
    | [] => none
    | next :: _ => some (s.last.read s.body len ++ next.read 0 (epv.overhead - len))
  else some (s.last.read s.body epv.overhead)

inductive Status
  | ok | needWayAuth | protoError | failed
deriving DecidableEq

/-- What the check leads to: the trailer if it was made, the buffers that stay on the queue, and
those that were freed. -/
structure Checked where
  cksum : Option (List UInt8)
  status : Status
  chain : List Buf
  freed : List Buf

/-- The part of `rpc__dg_call_receive_int` about authentication, for a fragment that has a header.
`recvCk` is the check of the authentication service, on the buffers and the trailer. -/
def receiveAuth (epv : Epv) (f : Frag) (recvCk : List Buf → List UInt8 → Status) :
    Option Checked :=
  if Passes epv f then
    let s := findLast (rawBodysize epv f) [] f.head f.more
    (checksum epv s).map fun cksum =>
      let cut := s.last.cut s.body s.body_le
      let status := recvCk (s.before ++ cut :: s.after) cksum
      match status with
      | .ok => ⟨some cksum, status, s.before ++ [cut], s.after⟩
      -- the lengths are restored, and the fragment stays for the next time
      | .needWayAuth => ⟨some cksum, status, s.before ++ s.last :: s.after, []⟩
      | _ => ⟨some cksum, status, s.before ++ cut :: s.after, []⟩
  else some ⟨none, .protoError, f.bufs, []⟩

/-- `RPC_DG_RECVQ_IOVECTOR_SETUP` for each buffer of the fragment. -/
def handedOut (hdrLen : BitVec 16) : List Buf → List (List UInt8)
  | [] => []
  | b :: rest => b.args.take (min hdrLen.toNat b.len) :: rest.map Buf.bytes

/-- The trailer ends at the latest in the buffer after the one where the body ends. -/
def TrailerInTwo (bufs : List Buf) (raw overhead : ℕ) : Prop :=
  ∀ before last next after, bufs = before ++ last :: next :: after →
    raw ≤ (before.map Buf.len).sum + last.len → (before = [] ∨ (before.map Buf.len).sum < raw) →
    raw + overhead ≤ (before.map Buf.len).sum + last.len + next.len

variable {epv : Epv} {f : Frag} {raw overhead : ℕ} {before rest : List Buf} {b : Buf}

theorem length_bytes (b : Buf) : b.bytes.length = b.len := by
  rw [Buf.bytes, List.length_take, Nat.min_eq_left b.len_le]

theorem length_flatten (bufs : List Buf) :
    (bufs.map Buf.bytes).flatten.length = (bufs.map Buf.len).sum := by
  rw [List.length_flatten, List.map_map]
  congr 1
  exact List.map_congr_left fun b _ => length_bytes b

/-- Reads that stay in what was received. -/
theorem read_eq {off n : ℕ} (h : off + n ≤ b.len) : b.read off n = (b.bytes.drop off).take n := by
  rw [Buf.read, Buf.bytes, List.drop_take, List.take_take, Nat.min_eq_left (by omega)]

/-- The buffers that `recv_pkt` reads into are full, the last one apart. -/
theorem trailerInTwo_of_full {bufs : List Buf} {size : ℕ} (hfull : ∀ b ∈ bufs.dropLast, b.len = size)
    (hoverhead : overhead ≤ size) (hlen : raw + overhead ≤ (bufs.map Buf.len).sum) :
    TrailerInTwo bufs raw overhead := by
  rintro before last next after rfl hraw -
  cases after with
  | nil =>
    simp only [List.map_append, List.map_cons, List.map_nil, List.sum_append, List.sum_cons,
      List.sum_nil] at hlen
    omega
  | cons b rest =>
    have hmem : next ∈ (before ++ last :: next :: b :: rest).dropLast := by
      simp [List.dropLast_append_of_ne_nil]
    rw [hfull next hmem]
    omega

/-! ### The buffer where the body ends -/

structure Found (raw : ℕ) (before : List Buf) (bufs : List Buf) (s : Spot) : Prop where
  chain : s.before ++ s.last :: s.after = before ++ bufs
  sum : (s.before.map Buf.len).sum + s.body = (before.map Buf.len).sum + raw
  first : s.before = before ∨ 0 < s.body

theorem findLast_spec (hraw : raw ≤ ((b :: rest).map Buf.len).sum) :
    Found raw before (b :: rest) (findLast raw before b rest) := by
  induction rest generalizing raw before b with
  | nil =>
    rw [List.map_singleton, List.sum_singleton] at hraw
    refine ⟨rfl, ?_, .inl rfl⟩
    show (before.map Buf.len).sum + min raw b.len = (before.map Buf.len).sum + raw
    rw [Nat.min_eq_left hraw]
  | cons next rest ih =>
    rw [List.map_cons, List.sum_cons] at hraw
    rw [findLast]
    split_ifs with hmore
    · have hmin : min raw b.len = b.len := by omega
      rw [hmin] at hmore ⊢
      have h : Found (raw - b.len) (before ++ [b]) (next :: rest)
          (findLast (raw - b.len) (before ++ [b]) next rest) := ih (by omega)
      have hsum := h.sum
      have hpos : 0 < (findLast (raw - b.len) (before ++ [b]) next rest).body := by
        rcases h.first with hfirst | hpos
        · rw [hfirst] at hsum
          omega
        · exact hpos
      refine ⟨?_, ?_, .inr hpos⟩
      · rw [h.chain, List.append_assoc, List.singleton_append]
      · rw [hsum, List.map_append, List.sum_append, List.map_singleton, List.sum_singleton]
        omega
    · refine ⟨rfl, ?_, .inl rfl⟩
      show (before.map Buf.len).sum + min raw b.len = (before.map Buf.len).sum + raw
      omega

/-- The bytes of the fragment from the end of the body on. -/
theorem drop_raw {s : Spot} (h : Found raw [] f.bufs s) :
    f.bytes.drop raw = s.last.bytes.drop s.body ++ (s.after.map Buf.bytes).flatten := by
  have hsum := h.sum
  rw [List.map_nil, List.sum_nil, Nat.zero_add] at hsum
  have hbody : s.body ≤ s.last.bytes.length := (length_bytes s.last).symm ▸ s.body_le
  have hlen : (s.before.map Buf.bytes).flatten.length = (s.before.map Buf.len).sum :=
    length_flatten s.before
  rw [Frag.bytes, ← List.nil_append f.bufs, ← h.chain, List.map_append, List.map_cons,
    List.flatten_append, List.flatten_cons, ← hsum, ← hlen, List.drop_length_add_append,
    List.drop_append_of_le_length hbody]

/-- The bytes of the fragment up to the end of the body. -/
theorem take_raw {s : Spot} (h : Found raw [] f.bufs s) :
    f.bytes.take raw = (s.before.map Buf.bytes).flatten ++ s.last.bytes.take s.body := by
  have hsum := h.sum
  rw [List.map_nil, List.sum_nil, Nat.zero_add] at hsum
  have hbody : s.body ≤ s.last.bytes.length := (length_bytes s.last).symm ▸ s.body_le
  have hlen : (s.before.map Buf.bytes).flatten.length = (s.before.map Buf.len).sum :=
    length_flatten s.before
  rw [Frag.bytes, ← List.nil_append f.bufs, ← h.chain, List.map_append, List.map_cons,
    List.flatten_append, List.flatten_cons, ← hsum, ← hlen, List.take_length_add_append,
    List.take_append_of_le_length hbody]

theorem checksum_eq {s : Spot} (h : Found raw [] f.bufs s)
    (hlen : raw + epv.overhead ≤ (f.bufs.map Buf.len).sum)
    (htwo : TrailerInTwo f.bufs raw epv.overhead) :
    checksum epv s = some ((f.bytes.drop raw).take epv.overhead) := by
  have hsum := h.sum
  rw [List.map_nil, List.sum_nil, Nat.zero_add] at hsum
  have hchain : s.before ++ s.last :: s.after = f.bufs := h.chain
  have hbody := s.body_le
  have hrest : (s.last.bytes.drop s.body).length = s.last.len - s.body := by
    rw [List.length_drop, length_bytes]
  rw [checksum, drop_raw h]
  by_cases hsplit : s.last.len < s.body + epv.overhead
  · rw [if_pos hsplit]
    cases hafter : s.after with
    | nil =>
      -- there are not so many bytes in front of it
      rw [← hchain, hafter] at hlen
      simp only [List.map_append, List.map_cons, List.map_nil, List.sum_append, List.sum_cons,
        List.sum_nil] at hlen
      omega
    | cons next after =>
      have hnext := htwo s.before s.last next after (hafter ▸ hchain.symm) (by omega)
        (h.first.imp_right fun hpos => by omega)
      have hread : s.last.read s.body (s.last.len - s.body) = s.last.bytes.drop s.body := by
        rw [read_eq (by omega), List.take_of_length_le hrest.le]
      have hwhole : (s.last.bytes.drop s.body).take epv.overhead = s.last.bytes.drop s.body :=
        List.take_of_length_le (by omega)
      dsimp only
      rw [hread, read_eq (by omega), List.drop_zero, List.map_cons, List.flatten_cons,
        List.take_append, hwhole, hrest,
        List.take_append_of_le_length (by rw [length_bytes]; omega)]
  · rw [if_neg hsplit, read_eq (by omega), List.take_append_of_le_length (by omega)]

/-! ### The data -/

/-- What is handed out when the last buffer is cut off behind the body: the first buffer only up to
the length in the header. -/
theorem handedOut_cut (hdrLen : BitVec 16) {s : Spot} (h : Found raw [] f.bufs s) :
    (handedOut hdrLen (s.before ++ [s.last.cut s.body s.body_le])).flatten
      = ((f.bytes.take raw).take f.head.len).take hdrLen.toNat
        ++ (f.bytes.take raw).drop f.head.len := by
  have hcut : (s.last.cut s.body s.body_le).bytes = s.last.bytes.take s.body := by
    rw [Buf.bytes, Buf.bytes, List.take_take, Buf.cut, Nat.min_eq_left s.body_le]
  rw [take_raw h]
  cases hbefore : s.before with
  | nil =>
    have hlast : s.last = f.head := by
      have hchain := h.chain
      rw [hbefore] at hchain
      exact (List.cons.inj hchain).1
    have hshort : (s.last.bytes.take s.body).length ≤ f.head.len := by
      have hbody := s.body_le
      rw [List.length_take, ← hlast]
      omega
    rw [List.nil_append, handedOut, List.map_nil, List.flatten_singleton, List.flatten_nil,
      List.nil_append, List.take_of_length_le hshort,
      List.drop_of_length_le hshort, List.append_nil, ← hcut, Buf.bytes, List.take_take]
  | cons b before =>
    have hhead : b = f.head := by
      have hchain := h.chain
      rw [hbefore] at hchain
      exact (List.cons.inj hchain).1
    rw [List.cons_append, handedOut, List.flatten_cons, List.map_append, List.flatten_append,
      List.map_singleton, List.flatten_singleton, hcut, List.map_cons, List.flatten_cons, hhead]
    have hlen : f.head.bytes.length = f.head.len := length_bytes f.head
    rw [List.append_assoc, ← hlen, List.take_left, List.drop_left, Buf.bytes, List.take_take,
      List.length_take, Nat.min_eq_left f.head.len_le]

/-! ### The whole -/

/-- **The trailer of a fragment.**  The check is given the bytes behind the rounded body; after a
successful one the buffers hold the body, those behind it are freed once, and a check that wants to
be made again finds the fragment as it was. -/
theorem trailer_located (f : Frag) (recvCk : List Buf → List UInt8 → Status)
    (hpasses : Passes epv f) (htwo : TrailerInTwo f.bufs (rawBodysize epv f) epv.overhead) :
    ∃ r, receiveAuth epv f recvCk = some r ∧
      r.cksum = some ((f.bytes.drop (rawBodysize epv f)).take epv.overhead) ∧
      (r.status = .ok →
        (handedOut f.hdrLen r.chain).flatten
            = ((f.bytes.take (rawBodysize epv f)).take f.head.len).take f.hdrLen.toNat
              ++ (f.bytes.take (rawBodysize epv f)).drop f.head.len ∧
          r.chain.map Buf.ptr ++ r.freed.map Buf.ptr = f.bufs.map Buf.ptr) ∧
      (r.status ≠ .ok → r.freed = []) ∧
      (r.status = .needWayAuth → r.chain = f.bufs) := by
  have hlen : rawBodysize epv f + epv.overhead ≤ (f.bufs.map Buf.len).sum := by
    have := hpasses.1
    rw [Frag.fragLen] at this
    omega
  have hfound : Found (rawBodysize epv f) [] f.bufs
      (findLast (rawBodysize epv f) [] f.head f.more) := by
    refine findLast_spec ?_
    rw [← Frag.bufs]
    omega
  rw [receiveAuth, if_pos hpasses]
  dsimp only
  set s := findLast (rawBodysize epv f) [] f.head f.more with hs
  rw [checksum_eq hfound hlen htwo, Option.map_some]
  refine ⟨_, rfl, ?_⟩
  have hchain : s.before ++ s.last :: s.after = f.bufs := hfound.chain
  cases hstatus : recvCk (s.before ++ s.last.cut s.body s.body_le :: s.after)
      ((f.bytes.drop (rawBodysize epv f)).take epv.overhead) with
  | ok =>
    refine ⟨rfl, fun _ => ⟨handedOut_cut f.hdrLen hfound, ?_⟩, fun h => absurd rfl h, nofun⟩
    rw [← hchain]
    simp [Buf.cut]
  | needWayAuth => exact ⟨rfl, nofun, fun _ => rfl, fun _ => hchain⟩
  | protoError => exact ⟨rfl, nofun, fun _ => rfl, nofun⟩
  | failed => exact ⟨rfl, nofun, fun _ => rfl, nofun⟩

/-- A service with trailers of two bytes. -/
def twoBytes : Epv := { authProto := 0, blocksize := 1, overhead := 2 }

/-- One byte of data, and a trailer in two buffers. -/
def splitTrailer : Frag := ⟨1, 0, ⟨0, [1, 2], 2, by decide⟩, [⟨1, [3], 1, by decide⟩]⟩

theorem trailer_located_split :
    ∃ r, receiveAuth twoBytes splitTrailer (fun _ _ => .ok) = some r ∧ r.cksum = some [2, 3] := by
  have htwo : TrailerInTwo splitTrailer.bufs (rawBodysize twoBytes splitTrailer)
      twoBytes.overhead :=
    have hfull : ∀ b ∈ splitTrailer.bufs.dropLast, b.len = 2 := by decide
    trailerInTwo_of_full hfull (by decide) (by decide)
  obtain ⟨r, hr, hcksum, -⟩ := trailer_located splitTrailer (fun _ _ => .ok) (by decide) htwo
  exact ⟨r, hr, hcksum⟩

/-- Five bytes of data with three of padding, and a trailer of four. -/
def padded : Frag := ⟨5, 0, ⟨0, [1, 2, 3, 4, 5, 0, 0, 0, 6, 7, 8, 9], 12, by decide⟩, []⟩

/-- No data, and a trailer of three bytes in three buffers, with an old byte behind the second. -/
def threeBufs : Frag :=
  ⟨0, 0, ⟨0, [1], 1, by decide⟩, [⟨1, [2, 9], 1, by decide⟩, ⟨2, [3], 1, by decide⟩]⟩

/-- The padding in the first buffer is not returned, and the trailer is read from two buffers only. -/
theorem not_trailer_located :
    (∃ r, receiveAuth { authProto := 0, blocksize := 8, overhead := 4 } padded (fun _ _ => .ok)
        = some r ∧ r.status = .ok ∧ (handedOut padded.hdrLen r.chain).flatten ≠ padded.bytes.take 8) ∧
      ∃ r, receiveAuth { authProto := 0, blocksize := 1, overhead := 3 } threeBufs (fun _ _ => .ok)
        = some r ∧ r.cksum ≠ some (threeBufs.bytes.take 3) :=
  ⟨⟨_, rfl, rfl, by decide⟩, _, rfl, by decide⟩

end AuthTrailer

end Dg
