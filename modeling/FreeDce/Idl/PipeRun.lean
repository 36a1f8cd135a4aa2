/-
Pipes between client and server (ndrmi3.c, ndrui3.c).

The client's stub pulls chunks from the client and marshals them behind the other [in] parameters;
what the manager pulls is cut from them by the sizes of its own buffers.  What the manager pushes
is marshalled at once, and the client's stub cuts it by the sizes of the client's buffers.  A use
of a pipe whose turn it is not raises.

* `nextCount_spec`, `Reading.take` — the remainder of a chunk that is carried over;
* `marshPipe_eq`, `unmarPipe_spec` — the routines on the caller side;
* `inv_pull`, `inv_push` — what each use of a pipe keeps;
* `pipes_deliver` — runs of the manager.
-/
import FreeDce.Idl.PipeSchedule
import FreeDce.Idl.PipeWire

namespace Idl

namespace Pipe

open Bytes

variable {b : Base} {s : Rcv} {es : List Elt} {cs : List (List Elt)} {ds : List Datum}
  {wire bulk : Bool}

/-! ### Counts and chunks -/

def ulong (n : ℕ) : Datum := ⟨4, toLE 4 n⟩

def unmarUlong (s : Rcv) : Option (ℕ × Rcv) := do
  let (v, s) ← unmarScalar 4 s
  some (ofLE v, s)

def marshUlong (n : ℕ) (out : List Octet) : List Octet := marshScalar 4 (toLE 4 n) out

/-- A chunk on the wire. -/
def chunkData (b : Base) (wire : Bool) (c : List Elt) : List Datum :=
  ulong c.length :: (eltsData b c ++ if c = [] then [] else trail b wire)

def chunksData (b : Base) (wire : Bool) (cs : List (List Elt)) : List Datum :=
  cs.flatMap (chunkData b wire)

/-- Chunks up to the zero count. -/
def Closed (cs : List (List Elt)) : Prop := ∃ init, cs = init ++ [[]] ∧ [] ∉ init

/-- What is left of a chunk, and the chunks behind it. -/
def partData (b : Base) (wire : Bool) (es : List Elt) (cs : List (List Elt)) (ds : List Datum) :
    List Datum :=
  eltsData b es ++ ((if es = [] then [] else trail b wire) ++ (chunksData b wire cs ++ ds))

/-- The count that is carried over, or the next one. -/
def nextCount (left : ℕ) (s : Rcv) : Option (ℕ × Rcv) :=
  if left = 0 then unmarUlong s else some (left, s)

structure Chunk (b : Base) (c : List Elt) : Prop where
  length : c.length < 2 ^ 32
  fits : ∀ e ∈ c, b.FitsElt e

/-- The receiver is at what is left of a chunk. -/
structure Reading (b : Base) (wire : Bool) (s : Rcv) (es : List Elt) (cs : List (List Elt))
    (ds : List Datum) : Prop where
  here : ∃ p, At s p (layout p (partData b wire es cs ds))
  chunk : Chunk b es
  chunks : ∀ c ∈ cs, Chunk b c

theorem Closed.cases (h : Closed cs) :
    cs = [[]] ∨ ∃ c cs', cs = c :: cs' ∧ c ≠ [] ∧ Closed cs' := by
  obtain ⟨init, rfl, hinit⟩ := h
  cases init with
  | nil => exact .inl rfl
  | cons c init =>
    refine .inr ⟨c, init ++ [[]], rfl, fun hc => hinit (hc ▸ List.mem_cons_self), init, rfl, ?_⟩
    exact fun hmem => hinit (List.mem_cons_of_mem _ hmem)

theorem unmarUlong_spec {n p : ℕ} (hn : n < 2 ^ 32) (h : At s p (layout p (ulong n :: ds))) :
    ∃ s' q, unmarUlong s = some (n, s') ∧ At s' q (layout q ds) := by
  obtain ⟨s', hs', hat⟩ := unmarScalar_spec (by norm_num) (length_toLE 4 n) h
  refine ⟨s', _, ?_, hat⟩
  rw [unmarUlong, hs']
  simp only [Option.bind_eq_bind, Option.bind_some]
  rw [ofLE_toLE (lt_of_lt_of_eq hn (by norm_num))]

/-- The count of the next chunk is that of its elements. -/
theorem nextCount_spec (h : Reading b wire s es cs ds) (hcs : Closed cs) :
    ∃ s' es' cs', nextCount es.length s = some (es'.length, s') ∧
      Reading b wire s' es' cs' ds ∧ es ++ cs.flatten = es' ++ cs'.flatten ∧
      (es ≠ [] → es' = es ∧ cs' = cs) ∧ (es = [] → cs = es' :: cs') ∧
      (es' ≠ [] → Closed cs') ∧ (es' = [] → cs' = []) := by
  by_cases hes : es = []
  · subst hes
    obtain ⟨p, hat⟩ := h.here
    obtain ⟨c, cs', rfl⟩ : ∃ c cs', cs = c :: cs' := by
      rcases hcs.cases with rfl | ⟨c, cs', rfl, -, -⟩
      · exact ⟨_, _, rfl⟩
      · exact ⟨_, _, rfl⟩
    have hc := h.chunks c List.mem_cons_self
    have hdata : partData b wire [] (c :: cs') ds =
        ulong c.length :: partData b wire c cs' ds := by
      simp [partData, chunksData, chunkData, eltsData, unitsData]
    rw [hdata] at hat
    obtain ⟨s', q, hs', hat'⟩ := unmarUlong_spec hc.length hat
    refine ⟨s', c, cs', hs', ⟨⟨q, hat'⟩, hc, fun c' hc' =>
      h.chunks c' (List.mem_cons_of_mem _ hc')⟩, rfl, fun hne => absurd rfl hne, fun _ => rfl, ?_,
      ?_⟩
    · intro hne
      rcases hcs.cases with heq | ⟨c', cs'', heq, -, hcs'⟩
      · exact absurd (List.cons.inj heq).1 hne
      · obtain ⟨rfl, rfl⟩ := List.cons.inj heq
        exact hcs'
    · intro hnil
      rcases hcs.cases with heq | ⟨c', cs'', heq, hc', -⟩
      · exact (List.cons.inj heq).2
      · exact absurd ((List.cons.inj heq).1 ▸ hnil) hc'
  · refine ⟨s, es, cs, ?_, h, rfl, fun _ => ⟨rfl, rfl⟩, fun hnil => absurd hnil hes, fun _ => hcs,
      fun hnil => absurd hnil hes⟩
    rw [nextCount, if_neg fun h => hes (List.length_eq_zero_iff.mp h)]

/-- A part of a chunk is taken. -/
theorem Reading.take (h : Reading b wire s es cs ds) (hcs : Closed cs) (hb : b.Ok)
    (hbulk : bulk = true → b.Packed) (hsame : b.kind = .array → bulk = wire ∨ b.Snug) {n : ℕ}
    (hn : 0 < n) (hle : n ≤ es.length) (hsize : bulk = true → n * b.size < 2 ^ 32) :
    ∃ s', unmarArr b bulk n s = some (es.take n, s') ∧ Reading b wire s' (es.drop n) cs ds := by
  obtain ⟨p, hat⟩ := h.here
  have hlen : (es.take n).length = n := List.length_take_of_le hle
  have hne : es ≠ [] := by
    rintro rfl
    rw [List.length_nil] at hle
    omega
  have htake : es.take n ≠ [] := by
    intro hnil
    rw [hnil, List.length_nil] at hlen
    omega
  -- a count comes behind the chunk
  obtain ⟨v, ds', hcount⟩ : ∃ v ds', chunksData b wire cs ++ ds = ⟨4, v⟩ :: ds' := by
    rcases hcs.cases with rfl | ⟨c, cs', rfl, -, -⟩
    · exact ⟨_, _, rfl⟩
    · exact ⟨_, _, rfl⟩
  rw [partData, if_neg hne, ← List.take_append_drop n es, hcount] at hat
  obtain ⟨s', q, hs', hat'⟩ := hb.unmarArr_part hbulk hsame htake
    (fun e he => h.chunk.fits e (List.mem_of_mem_take he))
    (fun e he => h.chunk.fits e (List.mem_of_mem_drop he)) (by rwa [hlen]) _ _ hat
  rw [hlen] at hs'
  rw [← hcount] at hat'
  refine ⟨s', hs', ⟨q, hat'⟩, ⟨?_, fun e he => h.chunk.fits e (List.mem_of_mem_drop he)⟩, h.chunks⟩
  have := h.chunk.length
  rw [List.length_drop]
  omega

/-! ### The caller side -/

/-- What the client's `alloc` grants, in octets, and what its `pull` supplies. -/
structure Pull where
  buffSize : ℕ
  chunk : List Elt

/-- `rpc_ss_ndr_marsh_pipe`, with what the client supplies one after the other. -/
def marshPipe (b : Base) (bulk : Bool) : List Pull → List Octet → Option (List Octet)
  | [], _ => none
  | r :: rs, out =>
    if b.size > r.buffSize then none
    else
      let out := marshArr b bulk r.chunk (marshUlong r.chunk.length out)
      if r.chunk.length = 0 then some out else marshPipe b bulk rs out

/-- `rpc_ss_ndr_unmar_pipe`: the pushes.  `grant` gives the sizes that `alloc` supplies. -/
def unmarPipe (b : Base) (bulk : Bool) (grant : ℕ → ℕ) : ℕ → ℕ → ℕ → Rcv →
    Option (List (List Elt) × Rcv)
  | 0, _, _, _ => none
  | fuel + 1, j, left, s => do
    let (left, s) ← nextCount left s
    if left = 0 then some ([[]], s)
    else if grant j / b.size = 0 then none
    else
      let n := if grant j / b.size > left then left else grant j / b.size
      let (es, s) ← unmarArr b bulk n s
      let (ps, s) ← unmarPipe b bulk grant fuel (j + 1) (left - n) s
      some (es :: ps, s)

/-- A client that keeps to its buffers: one element at least is granted, and what is pulled fits. -/
structure PullOk (b : Base) (r : Pull) : Prop where
  one : b.size ≤ r.buffSize
  word : r.buffSize < 2 ^ 32
  le : r.chunk.length ≤ r.buffSize / b.size
  fits : ∀ e ∈ r.chunk, b.FitsElt e

theorem PullOk.size {r : Pull} (h : PullOk b r) : r.chunk.length * b.size < 2 ^ 32 :=
  lt_of_le_of_lt ((Nat.mul_le_mul_right _ h.le).trans (Nat.div_mul_le_self _ _)) h.word

theorem bulkLen_le (b : Base) (n : ℕ) : b.bulkLen n ≤ n := by
  rw [Base.bulkLen]
  split <;> omega

theorem PullOk.bulkSize {r : Pull} (h : PullOk b r) : b.bulkLen r.chunk.length * b.size < 2 ^ 32 :=
  lt_of_le_of_lt (Nat.mul_le_mul_right _ (bulkLen_le b _)) h.size

theorem PullOk.chunk {r : Pull} (h : PullOk b r) : Chunk b r.chunk :=
  ⟨lt_of_le_of_lt (h.le.trans (Nat.div_le_self _ _)) h.word, h.fits⟩

theorem marshUlong_eq (n : ℕ) (out : List Octet) :
    marshUlong n out = out ++ layout out.length [ulong n] := by
  simp [marshUlong, marshScalar, marshAlign, layout, ulong]

/-- A chunk is marshalled behind its count. -/
theorem Base.Ok.marshChunk (hb : b.Ok) (hbulk : bulk = true → b.Packed) {c : List Elt}
    (hfits : ∀ e ∈ c, b.FitsElt e) (hsize : bulk = true → b.bulkLen c.length * b.size < 2 ^ 32)
    (out : List Octet) :
    marshArr b bulk c (marshUlong c.length out) =
      out ++ layout out.length (chunkData b bulk c) := by
  have hend := layoutEnd_eq [ulong c.length] (fun d hd => by
    rw [List.mem_singleton.mp hd]
    exact Nat.succ_pos 3) out.length
  rw [marshUlong_eq]
  by_cases hnil : c = []
  · subst hnil
    rfl
  · rw [hb.marshArr_eq hbulk hnil hfits hsize, chunkData, if_neg hnil, List.length_append, ← hend,
      List.append_assoc, ← layout_append]
    rfl

theorem layout_cat (ds es : List Datum) (h : Aligned ds) (out : List Octet) :
    out ++ layout out.length ds ++ layout (out ++ layout out.length ds).length es =
      out ++ layout out.length (ds ++ es) := by
  rw [layout_append, layoutEnd_eq ds h, List.length_append, List.append_assoc]

theorem Base.Ok.chunkData_aligned (hb : b.Ok) (wire : Bool) (c : List Elt) :
    Aligned (chunkData b wire c) := by
  intro d hd
  rcases List.mem_cons.mp hd with rfl | hd
  · exact Nat.succ_pos 3
  rcases List.mem_append.mp hd with hd | hd
  · exact (hb.data _ d hd).1
  · rw [trail] at hd
    split at hd
    · cases hd
    · split at hd
      · rw [List.mem_singleton.mp hd]
        exact hb.align_pos
      · cases hd

theorem Base.Ok.chunksData_aligned (hb : b.Ok) (wire : Bool) (cs : List (List Elt)) :
    Aligned (chunksData b wire cs) := by
  intro d hd
  obtain ⟨c, -, hd⟩ := List.mem_flatMap.mp hd
  exact hb.chunkData_aligned wire c d hd

/-- The client's chunks are marshalled up to the zero count. -/
theorem marshPipe_eq (hb : b.Ok) (hbulk : bulk = true → b.Packed) {rs : List Pull}
    (hrs : ∀ r ∈ rs, PullOk b r) (hclosed : Closed (rs.map Pull.chunk)) (out : List Octet) :
    marshPipe b bulk rs out =
      some (out ++ layout out.length (chunksData b bulk (rs.map Pull.chunk))) := by
  induction rs generalizing out with
  | nil =>
    obtain ⟨init, h, -⟩ := hclosed
    exact absurd (congrArg List.length h) (by simp)
  | cons r rs ih =>
    have hr := hrs r List.mem_cons_self
    rw [marshPipe, if_neg (not_lt.mpr hr.one)]
    simp only [hb.marshChunk hbulk hr.fits (fun _ => hr.bulkSize) out]
    rcases hclosed.cases with heq | ⟨c, cs', heq, hc, hcs'⟩
    · obtain ⟨hchunk, hrest⟩ := List.cons.inj heq
      rw [if_pos (by rw [hchunk]; rfl)]
      simp [chunksData, hchunk, hrest]
    · obtain ⟨rfl, rfl⟩ := List.cons.inj heq
      rw [if_neg fun h => hc (List.length_eq_zero_iff.mp h),
        ih (fun r hr => hrs r (List.mem_cons_of_mem _ hr)) hcs',
        layout_cat _ _ (hb.chunkData_aligned _ _)]
      rfl

/-- The client is pushed the elements, and one push of zero. -/
theorem unmarPipe_spec (bulk : Bool) (hb : b.Ok) (hbulk : bulk = true → b.Packed)
    (hsame : b.kind = .array → bulk = wire ∨ b.Snug) {grant : ℕ → ℕ}
    (hgrant : ∀ j, b.size ≤ grant j ∧ grant j < 2 ^ 32) {fuel j : ℕ}
    (hfuel : es.length + (cs.map List.length).sum < fuel) (h : Reading b wire s es cs ds)
    (hcs : Closed cs) :
    ∃ ps s' q, unmarPipe b bulk grant fuel j es.length s = some (ps, s') ∧
      At s' q (layout q ds) ∧ ps.flatten = es ++ cs.flatten ∧ Closed ps := by
  induction fuel generalizing j s es cs with
  | zero => exact absurd hfuel (Nat.not_lt_zero _)
  | succ fuel ih =>
    obtain ⟨s₁, es₁, cs₁, h₁, hread₁, hflat, hsame₁, hnew₁, hclosed₁, hend₁⟩ := nextCount_spec h hcs
    rw [unmarPipe, h₁, hflat]
    simp only [Option.bind_eq_bind, Option.bind_some]
    by_cases hnil : es₁ = []
    · obtain rfl := hend₁ hnil
      subst hnil
      obtain ⟨q, hat⟩ := hread₁.here
      exact ⟨[[]], s₁, q, if_pos rfl, hat, rfl, [], rfl, List.not_mem_nil⟩
    · have hlen : es₁.length ≠ 0 := fun h => hnil (List.length_eq_zero_iff.mp h)
      have hpos : 0 < grant j / b.size := Nat.div_pos (hgrant j).1 hb.size
      have hsum : es₁.length + (cs₁.map List.length).sum ≤
          es.length + (cs.map List.length).sum := by
        by_cases hes : es = []
        · rw [hnew₁ hes, hes]
          simp
        · obtain ⟨rfl, rfl⟩ := hsame₁ hes
          exact le_rfl
      rw [if_neg hlen, if_neg hpos.ne']
      obtain ⟨n, hn⟩ : ∃ n, n = if grant j / b.size > es₁.length then es₁.length
        else grant j / b.size := ⟨_, rfl⟩
      have hn' : 0 < n ∧ n ≤ es₁.length ∧ n ≤ grant j / b.size := by
        rw [hn]
        split <;> omega
      have hsize : n * b.size < 2 ^ 32 := lt_of_le_of_lt
        ((Nat.mul_le_mul_right _ hn'.2.2).trans (Nat.div_mul_le_self _ _)) (hgrant j).2
      obtain ⟨s₂, h₂, hread₂⟩ := hread₁.take (hclosed₁ hnil) hb hbulk hsame hn'.1 hn'.2.1
        (fun _ => hsize)
      obtain ⟨ps, s₃, q, h₃, hat, hps, init, rfl, hinit⟩ := ih (j := j + 1)
        (by rw [List.length_drop]; omega) hread₂ (hclosed₁ hnil)
      rw [List.length_drop] at h₃
      refine ⟨es₁.take n :: (init ++ [[]]), s₃, q, ?_, hat, ?_, es₁.take n :: init, rfl, ?_⟩
      · rw [← hn, h₂]
        simp only [Option.bind_some, h₃]
      · rw [List.flatten_cons, hps, ← List.append_assoc, List.take_append_drop]
      · intro hmem
        rcases List.mem_cons.mp hmem with hmem | hmem
        · have := congrArg List.length hmem
          rw [List.length_nil, List.length_take_of_le hn'.2.1] at this
          omega
        · exact hinit hmem

/-! ### The callee side -/

/-- An operation, the base types of its pipes by their numbers, and which arrays are transferred
in bulk. -/
structure Call where
  params : List Param
  base : ℕ → Base
  clientMarsh : ℕ → Bool
  clientUnmar : ℕ → Bool
  serverMarsh : ℕ → Bool
  serverUnmar : ℕ → Bool

inductive Exc
  | empty
  | order
  | memory
  | closed
deriving DecidableEq

/-- The state of the server's stub: `IDL_current_pipe`, the state blocks of the pipes by their
numbers, and `IDL_ms`.  `pulled` and `pushed` are history. -/
structure Srv where
  current : ℤ
  drained : ℕ → Bool := fun _ => false
  filled : ℕ → Bool := fun _ => false
  left : ℕ → ℕ := fun _ => 0
  rcv : Rcv
  out : List Octet := []
  raised : Option Exc := none
  pulled : ℕ → List Elt := fun _ => []
  pushed : ℕ → List (List Elt) := fun _ => []

/-- The receive buffer is given back. -/
def Rcv.release (s : Rcv) : Rcv := { s with elt := none, released := s.dealloc }

/-- `rpc_ss_ndr_clean_up` and `RAISE`. -/
def raise (e : Exc) (σ : Srv) : Srv := { σ with rcv := σ.rcv.release, raised := some e }

/-- `rpc_ss_ndr_ee_unmar_pipe_chunk`. -/
def pull (b : Base) (bulk : Bool) (i : PipeInit) (esize : ℕ) (σ : Srv) : Option Srv :=
  if σ.drained i.number then some (raise .empty σ)
  else if (i.number : ℤ) ≠ σ.current then some (raise .order σ)
  else do
    let (left, rcv) ← nextCount (σ.left i.number) σ.rcv
    let σ := { σ with rcv, left := Function.update σ.left i.number left }
    if left = 0 then
      some { σ with
        drained := Function.update σ.drained i.number true
        current := i.nextIn
        -- the last [in] pipe
        rcv := if i.nextIn < 0 then rcv.release else rcv }
    else if esize = 0 then some (raise .memory σ)
    else
      let n := if esize > left then left else esize
      let (es, rcv) ← unmarArr b bulk n rcv
      some { σ with
        rcv
        left := Function.update σ.left i.number (left - n)
        pulled := Function.update σ.pulled i.number (σ.pulled i.number ++ es) }

/-- `rpc_ss_ndr_ee_marsh_pipe_chunk`. -/
def push (b : Base) (bulk : Bool) (i : PipeInit) (c : List Elt) (σ : Srv) : Srv :=
  if σ.filled i.number then raise .closed σ
  else if (i.number : ℤ) ≠ -σ.current then raise .order σ
  else
    let out := marshUlong c.length σ.out
    let σ := { σ with pushed := Function.update σ.pushed i.number (σ.pushed i.number ++ [c]) }
    if c.length = 0 then
      { σ with
        out
        filled := Function.update σ.filled i.number true
        current := i.nextOut }
    else { σ with out := marshArr b bulk c out }

/-- A use of a pipe by the manager. -/
inductive Use
  | pull (k esize : ℕ)
  | push (k : ℕ) (c : List Elt)

def Use.pipe : Use → ℕ
  | .pull k _ => k
  | .push k _ => k

/-- The state block that belongs to a pipe. -/
def blockOf (C : Call) (k : ℕ) : Option PipeInit :=
  (initServerPipes C.params).2.find? fun i => i.number = k

/-- The server's pipe routines; a read that the buffers do not bear is not possible. -/
def step (C : Call) (σ : Srv) (u : Use) : Option Srv :=
  (blockOf C u.pipe).bind fun i =>
    match u with
    | .pull k esize => Pipe.pull (C.base k) (C.serverUnmar k) i esize σ
    | .push k c => some (Pipe.push (C.base k) (C.serverMarsh k) i c σ)

/-- The stub before the manager is called. -/
def start (C : Call) (rcv : Rcv) : Srv := { current := (initServerPipes C.params).1, rcv }

/-- What the client supplies for a pipe, as chunks and as elements. -/
def chunksOf (S : ℕ → List Pull) (k : ℕ) : List (List Elt) := (S k).map Pull.chunk

def supply (S : ℕ → List Pull) (k : ℕ) : List Elt := (chunksOf S k).flatten

/-- The [in] pipes are marshalled in the order of the parameters. -/
def marshPipes (C : Call) (S : ℕ → List Pull) : List ℕ → List Octet → Option (List Octet)
  | [], out => some out
  | k :: ks, out => do
    let out ← marshPipe (C.base k) (C.clientMarsh k) (S k) out
    marshPipes C S ks out

/-- The [out] pipes are unmarshalled in the order of the parameters. -/
def unmarPipes (C : Call) (grant : ℕ → ℕ → ℕ) (fuel : ℕ) : List ℕ → Rcv →
    Option (List (ℕ × List (List Elt)) × Rcv)
  | [], s => some ([], s)
  | k :: ks, s => do
    let (ps, s) ← unmarPipe (C.base k) (C.clientUnmar k) (grant k) fuel 0 0 s
    let (r, s) ← unmarPipes C grant fuel ks s
    some ((k, ps) :: r, s)

/-- The data of the [in] pipes among turns. -/
def inData (C : Call) (S : ℕ → List Pull) (l : List ℤ) : List Datum :=
  l.flatMap fun t =>
    if 0 < t then chunksData (C.base t.toNat) (C.clientMarsh t.toNat) (chunksOf S t.toNat) else []

/-- The data of the [out] pipes among turns. -/
def outData (C : Call) (pushed : ℕ → List (List Elt)) (l : List ℤ) : List Datum :=
  l.flatMap fun t =>
    if t < 0 then
      chunksData (C.base (-t).toNat) (C.serverMarsh (-t).toNat) (pushed (-t).toNat)
    else []

/-- Base types and bulk transfer fit together, the sides agree about arrays, and the index of no
pipe is taken for the end. -/
structure Call.Ok (C : Call) : Prop where
  pipes : turns C.params ≠ []
  count : countPipes C.params < 32767
  base : ∀ k, (C.base k).Ok
  packed : ∀ k, (C.clientMarsh k || C.clientUnmar k || C.serverMarsh k || C.serverUnmar k) = true →
    (C.base k).Packed
  sameIn : ∀ k, (C.base k).kind = .array →
    C.serverUnmar k = C.clientMarsh k ∨ (C.base k).Snug
  sameOut : ∀ k, (C.base k).kind = .array →
    C.clientUnmar k = C.serverMarsh k ∨ (C.base k).Snug

/-- A client that keeps to its buffers, for each [in] pipe. -/
def Supplied (C : Call) (S : ℕ → List Pull) : Prop :=
  ∀ k : ℕ, (k : ℤ) ∈ turns C.params → (∀ r ∈ S k, PullOk (C.base k) r) ∧ Closed (chunksOf S k)

/-- What the manager may use, until a use has raised; of a chunk less than 4 GiB are moved in
bulk. -/
def Allowed (C : Call) (σ : Srv) (u : Use) : Prop :=
  σ.raised = none ∧ (blockOf C u.pipe).isSome = true ∧
    match u with
    | .pull _ _ => True
    | .push k c => Chunk (C.base k) c ∧
        (C.serverMarsh k = true → (C.base k).bulkLen c.length * (C.base k).size < 2 ^ 32)

/-- The turn of a use. -/
def Use.turn : Use → ℤ
  | .pull k _ => k
  | .push k _ => -k

/-! ### The invariant -/

def allTurns (C : Call) : List ℤ := turns C.params ++ [finishedWithPipes]

structure Inv (C : Call) (S : ℕ → List Pull) (dn td : List ℤ) (σ : Srv) : Prop where
  split : allTurns C = dn ++ σ.current :: td
  drained : ∀ k : ℕ, σ.drained k = true ↔ (k : ℤ) ∈ dn
  filled : ∀ k : ℕ, σ.filled k = true ↔ -(k : ℤ) ∈ dn
  pulledDone : ∀ k : ℕ, (k : ℤ) ∈ dn → σ.pulled k = supply S k
  pulledTodo : ∀ k : ℕ, (k : ℤ) ∉ dn → (k : ℤ) ≠ σ.current → σ.pulled k = [] ∧ σ.left k = 0
  reading : ∀ k : ℕ, (k : ℤ) = σ.current → ∃ es cs, supply S k = σ.pulled k ++ (es ++ cs.flatten) ∧
    (σ.raised = none → σ.left k = es.length ∧ Closed cs ∧
      es.length * (C.base k).size < 2 ^ 32 ∧ (∀ c ∈ cs, c.length * (C.base k).size < 2 ^ 32) ∧
      Reading (C.base k) (C.clientMarsh k) σ.rcv es cs (inData C S td))
  done : σ.current < 0 ∨ σ.raised ≠ none →
    σ.rcv.elt = none ∧ ∃ n, σ.rcv.released = List.range n
  out : σ.out = layout 0 (outData C σ.pushed (dn ++ [σ.current]))
  pushedTodo : ∀ k : ℕ, -(k : ℤ) ∉ dn → (-(k : ℤ) = σ.current → σ.current = finishedWithPipes) →
    σ.pushed k = []
  pushedDone : ∀ k : ℕ, -(k : ℤ) ∈ dn → Closed (σ.pushed k)
  pushedCurr : ∀ k : ℕ, -(k : ℤ) ∉ dn → [] ∉ σ.pushed k
  pushedChunk : ∀ k, ∀ c ∈ σ.pushed k, Chunk (C.base k) c

variable {C : Call} {S : ℕ → List Pull} {dn td : List ℤ} {σ : Srv} {k : ℕ} {i : PipeInit}

theorem blockOf_spec (h : blockOf C k = some i) :
    i ∈ (initServerPipes C.params).2 ∧ i.number = k := by
  have hk := List.find?_some h
  exact ⟨List.mem_of_find?_eq_some h, of_decide_eq_true hk⟩

theorem turns_ne_zero {t : ℤ} (h : t ∈ allTurns C) : t ≠ 0 := by
  rintro rfl
  rw [allTurns, turns, List.mem_append, List.mem_append, List.mem_map, List.mem_map] at h
  rcases h with (⟨k, hk, heq⟩ | ⟨k, hk, heq⟩) | h
  · have := ((numbered_bounds _ _ 0).1 k hk).1
    omega
  · have := ((numbered_bounds _ _ 0).1 k hk).1
    omega
  · exact absurd (List.mem_singleton.mp h) (by decide)

theorem mem_turns {t : ℤ} (h : t ∈ allTurns C) (hne : t ≠ finishedWithPipes) :
    t ∈ turns C.params :=
  (List.mem_append.mp h).resolve_right fun hfin => hne (List.mem_singleton.mp hfin)

/-- The next turn is the one the index leads to, and it was not before. -/
theorem next_turn {t next : ℤ} (hC : C.Ok) (h : allTurns C = dn ++ t :: td)
    (hnext : Follows (allTurns C) t next) : ∃ td', td = next :: td' ∧
      allTurns C = dn ++ [t] ++ next :: td' ∧ next ∉ dn ++ [t] := by
  obtain ⟨l₁, l₂, heq⟩ := hnext
  have hnodup := nodup_turns hC.count
  change (allTurns C).Nodup at hnodup
  have hdn : t ∉ dn := by
    rw [h] at hnodup
    exact fun hmem => (List.nodup_append'.mp hnodup).2.2 hmem List.mem_cons_self
  have hl₁ : t ∉ l₁ := by
    rw [heq] at hnodup
    exact fun hmem => (List.nodup_append'.mp hnodup).2.2 hmem List.mem_cons_self
  have hlen : dn.length = l₁.length := by
    have hidx : (dn ++ t :: td).idxOf t = (l₁ ++ t :: next :: l₂).idxOf t := by rw [← h, heq]
    rwa [List.idxOf_append_of_notMem hdn, List.idxOf_append_of_notMem hl₁, List.idxOf_cons_self,
      List.idxOf_cons_self] at hidx
  have htd := List.append_inj_right (h.symm.trans heq) hlen
  obtain rfl : td = next :: l₂ := (List.cons.inj htd).2
  have hsplit : allTurns C = dn ++ [t] ++ next :: l₂ := by
    rw [h, List.append_assoc]
    rfl
  rw [hsplit] at hnodup
  exact ⟨l₂, rfl, hsplit, fun hmem =>
    (List.nodup_append'.mp hnodup).2.2 hmem List.mem_cons_self⟩

theorem Inv.not_mem (h : Inv C S dn td σ) (hC : C.Ok) : σ.current ∉ dn ∧ σ.current ∉ td := by
  have hnodup := nodup_turns hC.count
  change (allTurns C).Nodup at hnodup
  rw [h.split] at hnodup
  obtain ⟨-, hcons, hdisj⟩ := List.nodup_append'.mp hnodup
  exact ⟨fun hmem => hdisj hmem List.mem_cons_self, (List.nodup_cons.mp hcons).1⟩

/-- A buffer is given back once. -/
theorem released_once {p : ℕ} {rem : List Octet} (h : At s p rem) :
    s.release.elt = none ∧ ∃ n, s.release.released = List.range n := by
  obtain ⟨i, helt, hreleased⟩ := h.live
  refine ⟨rfl, i + 1, ?_⟩
  show s.dealloc = _
  rw [Rcv.dealloc, helt, List.range_succ, ← hreleased]
  exact if_neg h.frags.ne_nil

theorem release_released (h : s.elt = none) : s.release.released = s.released := by
  show s.dealloc = _
  rw [Rcv.dealloc, h]

/-- Where no use has raised, the buffer is held as long as there are [in] pipes. -/
theorem Inv.release (h : Inv C S dn td σ) (hraised : σ.raised = none) :
    σ.rcv.release.elt = none ∧ ∃ n, σ.rcv.release.released = List.range n := by
  have hmem : σ.current ∈ allTurns C := by
    rw [h.split]
    exact List.mem_append_right _ List.mem_cons_self
  have hzero := turns_ne_zero hmem
  by_cases hneg : σ.current < 0
  · obtain ⟨helt, n, hn⟩ := h.done (.inl hneg)
    exact ⟨rfl, n, by rw [release_released helt, hn]⟩
  · obtain ⟨es, cs, -, hread⟩ := h.reading σ.current.toNat (Int.toNat_of_nonneg (by omega))
    obtain ⟨-, -, -, -, hread⟩ := hread hraised
    obtain ⟨p, hat⟩ := hread.here
    exact released_once hat

/-- A use that raises touches no stream. -/
theorem inv_raise (h : Inv C S dn td σ) (hraised : σ.raised = none) (e : Exc) :
    Inv C S dn td (raise e σ) where
  split := h.split
  drained := h.drained
  filled := h.filled
  pulledDone := h.pulledDone
  pulledTodo := h.pulledTodo
  reading k hk := by
    obtain ⟨es, cs, hsupply, -⟩ := h.reading k hk
    exact ⟨es, cs, hsupply, fun hnone => by cases hnone⟩
  done _ := h.release hraised
  out := h.out
  pushedTodo := h.pushedTodo
  pushedDone := h.pushedDone
  pushedCurr := h.pushedCurr
  pushedChunk := h.pushedChunk

/-- The pipe whose turn it is, with another remainder. -/
theorem Inv.setReading (es : List Elt) (h : Inv C S dn td σ) (hk : (k : ℤ) = σ.current)
    (hraised : σ.raised = none)
    {rcv : Rcv} {left : ℕ → ℕ} {pulled : ℕ → List Elt} (hleft : ∀ j, j ≠ k → left j = σ.left j)
    (hpulled : ∀ j, j ≠ k → pulled j = σ.pulled j) (hsupply : supply S k = pulled k ++
      (es ++ cs.flatten)) (hlen : left k = es.length) (hcs : Closed cs)
    (hsize : es.length * (C.base k).size < 2 ^ 32)
    (hsizes : ∀ c ∈ cs, c.length * (C.base k).size < 2 ^ 32)
    (hread : Reading (C.base k) (C.clientMarsh k) rcv es cs (inData C S td)) (hC : C.Ok) :
    Inv C S dn td { σ with rcv, left, pulled } where
  split := h.split
  drained := h.drained
  filled := h.filled
  pulledDone j hj := by
    have hne : j ≠ k := by
      rintro rfl
      rw [hk] at hj
      exact (h.not_mem hC).1 hj
    exact (hpulled j hne).trans (h.pulledDone j hj)
  pulledTodo j hj hcurr := by
    have hne : j ≠ k := fun heq => hcurr (heq ▸ hk)
    obtain ⟨hp, hl⟩ := h.pulledTodo j hj hcurr
    exact ⟨(hpulled j hne).trans hp, (hleft j hne).trans hl⟩
  reading j hj := by
    obtain rfl : j = k := by
      have hj' : (j : ℤ) = σ.current := hj
      omega
    exact ⟨es, cs, hsupply, fun _ => ⟨hlen, hcs, hsize, hsizes, hread⟩⟩
  done hdone := by
    rcases hdone with hneg | hne
    · have hneg' : σ.current < 0 := hneg
      omega
    · exact absurd hraised hne
  out := h.out
  pushedTodo := h.pushedTodo
  pushedDone := h.pushedDone
  pushedCurr := h.pushedCurr
  pushedChunk := h.pushedChunk

theorem inData_cons (C : Call) (S : ℕ → List Pull) (k : ℕ) (hk : 0 < k) (l : List ℤ) :
    inData C S ((k : ℤ) :: l) =
      chunksData (C.base k) (C.clientMarsh k) (chunksOf S k) ++ inData C S l := by
  rw [inData, List.flatMap_cons, if_pos (by omega), Int.toNat_natCast]
  rfl

theorem outData_append (C : Call) (pushed : ℕ → List (List Elt)) (l l' : List ℤ) :
    outData C pushed (l ++ l') = outData C pushed l ++ outData C pushed l' := List.flatMap_append

theorem outData_singleton (C : Call) {pushed : ℕ → List (List Elt)} {t : ℤ}
    (h : t < 0 → pushed (-t).toNat = []) : outData C pushed [t] = [] := by
  rw [outData, List.flatMap_singleton]
  split
  · rw [h ‹_›]
    rfl
  · rfl

/-- The pipe whose turn ends is marked. -/
theorem mark_iff {f : ℕ → Bool} {g : ℕ → ℤ} (hg : Function.Injective g)
    (hf : ∀ j, f j = true ↔ g j ∈ dn) (k j : ℕ) :
    Function.update f k true j = true ↔ g j ∈ dn ++ [g k] := by
  rw [List.mem_append, List.mem_singleton]
  by_cases hj : j = k
  · subst hj
    rw [Function.update_self]
    exact iff_of_true rfl (.inr rfl)
  · rw [Function.update_of_ne hj, hf j]
    exact (or_iff_left fun heq => hj (hg heq)).symm

/-- An [in] pipe is read from its first chunk on. -/
theorem Supplied.reading (hS : Supplied C S) (hk : (k : ℤ) ∈ turns C.params) (hpos : 0 < k)
    {rcv : Rcv} {p : ℕ} (hat : At rcv p (layout p (inData C S ((k : ℤ) :: td)))) :
    Closed (chunksOf S k) ∧ (∀ c ∈ chunksOf S k, c.length * (C.base k).size < 2 ^ 32) ∧
      Reading (C.base k) (C.clientMarsh k) rcv [] (chunksOf S k) (inData C S td) := by
  obtain ⟨hpull, hclosed⟩ := hS k hk
  have hchunks : ∀ c ∈ chunksOf S k, ∃ r ∈ S k, r.chunk = c := fun c hc => List.mem_map.mp hc
  rw [inData_cons C S k hpos] at hat
  refine ⟨hclosed, fun c hc => ?_, ⟨p, hat⟩, ⟨by norm_num, fun e he => ?_⟩, fun c hc => ?_⟩
  · obtain ⟨r, hr, rfl⟩ := hchunks c hc
    exact (hpull r hr).size
  · exact (List.not_mem_nil he).elim
  · obtain ⟨r, hr, rfl⟩ := hchunks c hc
    exact (hpull r hr).chunk

/-- The turn of an [in] pipe comes to its end. -/
theorem inv_drain (hC : C.Ok) (hS : Supplied C S) (h : Inv C S dn td σ)
    (hi : i ∈ (initServerPipes C.params).2) (hk : (i.number : ℤ) = σ.current)
    (hraised : σ.raised = none) {rcv : Rcv} (left : ℕ → ℕ)
    (hleft : ∀ j, j ≠ i.number → left j = σ.left j)
    (hpulled : σ.pulled i.number = supply S i.number)
    (hread : Reading (C.base i.number) (C.clientMarsh i.number) rcv [] [] (inData C S td)) :
    ∃ td', Inv C S (dn ++ [(i.number : ℤ)]) td' { σ with
      left
      drained := Function.update σ.drained i.number true
      current := i.nextIn
      rcv := if i.nextIn < 0 then rcv.release else rcv } := by
  have hmem : (i.number : ℤ) ∈ allTurns C := by
    rw [h.split, hk]
    exact List.mem_append_right _ List.mem_cons_self
  have hzero := turns_ne_zero hmem
  have hfin : ∀ j : ℕ, (j : ℤ) ≠ finishedWithPipes := fun j => by
    rw [finishedWithPipes]
    omega
  have hsplit := h.split
  rw [← hk] at hsplit
  obtain ⟨td', rfl, hsplit', hnext⟩ :=
    next_turn hC hsplit ((initServerPipes_follows hi).1 (mem_turns hmem (hfin _)))
  have hnext' : i.nextIn ∉ dn ∧ i.nextIn ≠ i.number :=
    ⟨fun hmem => hnext (List.mem_append_left _ hmem), fun heq =>
      hnext (List.mem_append_right _ (heq ▸ List.mem_cons_self))⟩
  have hneg : ∀ j : ℕ, -(j : ℤ) ≠ i.number := fun j => by omega
  refine ⟨td', hsplit', mark_iff Nat.cast_injective h.drained _, fun j => ?_, fun j hj => ?_,
    fun j hj hcurr' => ?_, fun j hj => ?_, fun hdone => ?_, ?_, fun j hj _ => ?_, fun j hj => ?_,
    fun j hj => ?_, h.pushedChunk⟩
  · rw [List.mem_append, List.mem_singleton, or_iff_left (hneg j)]
    exact h.filled j
  · rcases List.mem_append.mp hj with hj | hj
    · exact h.pulledDone j hj
    · obtain rfl : j = i.number := by exact_mod_cast List.mem_singleton.mp hj
      exact hpulled
  · have hne : j ≠ i.number := by
      rintro rfl
      exact hj (List.mem_append_right _ List.mem_cons_self)
    obtain ⟨hp, hl⟩ := h.pulledTodo j (fun hmem => hj (List.mem_append_left _ hmem))
      (by rw [← hk]; exact_mod_cast hne)
    exact ⟨hp, (hleft j hne).trans hl⟩
  · have hj' : (j : ℤ) = i.nextIn := hj
    have hjmem : (j : ℤ) ∈ allTurns C := by
      rw [hsplit', hj']
      exact List.mem_append_right _ List.mem_cons_self
    have hjzero := turns_ne_zero hjmem
    have hne : j ≠ i.number := by
      rintro rfl
      exact hnext'.2 hj'.symm
    obtain ⟨hp, hl⟩ := h.pulledTodo j (by rw [hj']; exact hnext'.1)
      (by rw [← hk]; exact_mod_cast hne)
    have hkeep : ¬i.nextIn < 0 := by omega
    -- the next pipe begins where this one ended
    obtain ⟨p, hat⟩ := hread.here
    change At rcv p (layout p (inData C S (i.nextIn :: td'))) at hat
    rw [← hj'] at hat
    obtain ⟨hclosed, hsizes, hreading⟩ := hS.reading (mem_turns hjmem (hfin j)) (by omega) hat
    refine ⟨[], chunksOf S j, ?_, fun _ => ⟨(hleft j hne).trans hl, hclosed, ?_, hsizes, ?_⟩⟩
    · show supply S j = σ.pulled j ++ _
      rw [hp]
      rfl
    · rw [List.length_nil, Nat.zero_mul]
      norm_num
    · simp only [if_neg hkeep]
      exact hreading
  · rcases hdone with hneg' | hne
    · -- no [in] pipe is left: the last buffer goes back
      have hneg'' : i.nextIn < 0 := hneg'
      obtain ⟨p, hat⟩ := hread.here
      simp only [if_pos hneg'']
      exact released_once hat
    · exact absurd hraised hne
  · show σ.out = _
    rw [h.out, ← hk, outData_append C _ (dn ++ [(i.number : ℤ)]), outData_singleton C
      (t := i.nextIn), List.append_nil]
    intro hlt
    refine h.pushedTodo _ ?_ ?_
    · rw [Int.toNat_of_nonneg (by omega), neg_neg]
      exact hnext'.1
    · rw [Int.toNat_of_nonneg (by omega), neg_neg, ← hk]
      exact fun heq => absurd heq hnext'.2
  · refine h.pushedTodo j (fun hmem => hj (List.mem_append_left _ hmem)) fun heq => ?_
    rw [← hk] at heq
    exact absurd heq (hneg j)
  · rcases List.mem_append.mp hj with hj | hj
    · exact h.pushedDone j hj
    · exact absurd (List.mem_singleton.mp hj) (hneg j)
  · exact h.pushedCurr j fun hmem => hj (List.mem_append_left _ hmem)

/-- A manager pulls. -/
theorem inv_pull (hC : C.Ok) (hS : Supplied C S) (h : Inv C S dn td σ)
    (hi : i ∈ (initServerPipes C.params).2) (hraised : σ.raised = none) (esize : ℕ) :
    ∃ σ' dn' td', pull (C.base i.number) (C.serverUnmar i.number) i esize σ = some σ' ∧
      Inv C S dn' td' σ' := by
  rw [pull]
  split
  · exact ⟨_, dn, td, rfl, inv_raise h hraised _⟩
  split
  · exact ⟨_, dn, td, rfl, inv_raise h hraised _⟩
  case isFalse hne =>
    have hk : (i.number : ℤ) = σ.current := not_not.mp hne
    obtain ⟨es, cs, hsupply, hread⟩ := h.reading i.number hk
    obtain ⟨hlen, hclosed, hsize, hsizes, hread⟩ := hread hraised
    -- the chunk that was begun, or the next one
    obtain ⟨s₁, es₁, cs₁, h₁, hread₁, hflat, hsame₁, hnew₁, hclosed₁, hend₁⟩ :=
      nextCount_spec hread hclosed
    have hb := hC.base i.number
    have hpacked : C.serverUnmar i.number = true → (C.base i.number).Packed := fun hbulk =>
      hC.packed i.number (by simp [hbulk])
    have hsize₁ : es₁.length * (C.base i.number).size < 2 ^ 32 ∧
        ∀ c ∈ cs₁, c.length * (C.base i.number).size < 2 ^ 32 := by
      by_cases hes : es = []
      · rw [hnew₁ hes] at hsizes
        exact ⟨hsizes es₁ List.mem_cons_self, fun c hc => hsizes c (List.mem_cons_of_mem _ hc)⟩
      · obtain ⟨rfl, rfl⟩ := hsame₁ hes
        exact ⟨hsize, hsizes⟩
    rw [hflat] at hsupply
    have hother : ∀ (l : ℕ) (j : ℕ), j ≠ i.number →
        Function.update σ.left i.number l j = σ.left j := fun l j hj =>
      Function.update_of_ne hj _ _
    rw [hlen, h₁]
    simp only [Option.bind_eq_bind, Option.bind_some]
    by_cases hnil : es₁ = []
    · -- a chunk without elements ends the pipe
      obtain rfl := hend₁ hnil
      subst hnil
      rw [if_pos List.length_nil]
      rw [List.flatten_nil, List.append_nil, List.append_nil] at hsupply
      obtain ⟨td', hinv⟩ := inv_drain hC hS h hi hk hraised _ (hother 0) hsupply.symm hread₁
      exact ⟨_, _, td', rfl, hinv⟩
    · have hlen₁ : es₁.length ≠ 0 := fun h => hnil (List.length_eq_zero_iff.mp h)
      rw [if_neg hlen₁]
      have hinv := h.setReading es₁ hk hraised (hother es₁.length) (fun j _ => rfl) hsupply
        (Function.update_self ..) (hclosed₁ hnil) hsize₁.1 hsize₁.2 hread₁ hC
      by_cases hesize : esize = 0
      · rw [if_pos hesize]
        exact ⟨_, dn, td, rfl, inv_raise hinv hraised _⟩
      · -- as many elements as the manager has room for
        rw [if_neg hesize]
        obtain ⟨n, hn⟩ : ∃ n, n = if esize > es₁.length then es₁.length else esize := ⟨_, rfl⟩
        have hn' : 0 < n ∧ n ≤ es₁.length := by
          rw [hn]
          split <;> omega
        obtain ⟨s₂, h₂, hread₂⟩ := hread₁.take (hclosed₁ hnil) hb hpacked (hC.sameIn i.number)
          hn'.1 hn'.2
          (fun _ => lt_of_le_of_lt (Nat.mul_le_mul_right _ hn'.2) hsize₁.1)
        have hlen₂ : (es₁.drop n).length = es₁.length - n := List.length_drop
        rw [← hn, h₂]
        refine ⟨_, dn, td, rfl, ?_⟩
        refine h.setReading (es₁.drop n) hk hraised (fun j hj => ?_) (fun j hj => ?_) ?_ ?_
          (hclosed₁ hnil) ?_ hsize₁.2 hread₂ hC
        · rw [Function.update_of_ne hj, Function.update_of_ne hj]
        · exact Function.update_of_ne hj _ _
        · rw [Function.update_self, hsupply, List.append_assoc, ← List.append_assoc (es₁.take n),
            List.take_append_drop]
        · rw [Function.update_self, hlen₂]
        · rw [hlen₂]
          exact lt_of_le_of_lt (Nat.mul_le_mul_right _ (Nat.sub_le _ _)) hsize₁.1

theorem outData_congr {pushed pushed' : ℕ → List (List Elt)} {l : List ℤ}
    (h : ∀ k : ℕ, -(k : ℤ) ∈ l → pushed k = pushed' k) :
    outData C pushed l = outData C pushed' l := by
  refine List.flatMap_congr fun t ht => ?_
  split
  · rw [h _ (by rwa [Int.toNat_of_nonneg (by omega), neg_neg])]
  · rfl

theorem outData_aligned (hC : C.Ok) (pushed : ℕ → List (List Elt)) (l : List ℤ) :
    Aligned (outData C pushed l) := by
  intro d hd
  obtain ⟨t, -, hd⟩ := List.mem_flatMap.mp hd
  split at hd
  · exact (hC.base _).chunksData_aligned _ _ d hd
  · cases hd

theorem nextOut_nonpos (hi : i ∈ (initServerPipes C.params).2) :
    0 < i.number ∧ i.number ≤ countPipes C.params ∧ i.nextOut ≤ 0 := by
  obtain ⟨pre, p, post, hparams, hp, hnumber, -, hout⟩ := mem_emitLoop hi
  have hcount : countPipes C.params = countPipes pre + (countPipes post + 1) := by
    have hcons := countPipes_cons p post
    rw [if_pos hp] at hcons
    rw [hparams, countPipes, List.countP_append]
    exact congrArg (countPipes pre + ·) hcons
  refine ⟨by omega, by omega, ?_⟩
  rw [hout, nextOutPipe, finishedWithPipes]
  split
  · split <;> omega
  · exact le_rfl

/-- What is pushed stands behind what was. -/
theorem out_pushed (hC : C.Ok) (h : Inv C S dn td σ) (hk : -(k : ℤ) = σ.current) (hpos : 0 < k)
    {c : List Elt} (hc : Chunk (C.base k) c)
    (hsize : C.serverMarsh k = true → (C.base k).bulkLen c.length * (C.base k).size < 2 ^ 32) :
    marshArr (C.base k) (C.serverMarsh k) c (marshUlong c.length σ.out) =
      layout 0
        (outData C (Function.update σ.pushed k (σ.pushed k ++ [c])) (dn ++ [σ.current])) := by
  have hcurr := (h.not_mem hC).1
  rw [← hk] at hcurr
  have hsame : outData C (Function.update σ.pushed k (σ.pushed k ++ [c])) dn =
      outData C σ.pushed dn := by
    refine outData_congr fun j hj => Function.update_of_ne ?_ _ _
    rintro rfl
    exact hcurr hj
  have hone : ∀ pushed : ℕ → List (List Elt), outData C pushed [-(k : ℤ)] =
      chunksData (C.base k) (C.serverMarsh k) (pushed k) := by
    intro pushed
    rw [outData, List.flatMap_singleton, if_pos (by omega), neg_neg, Int.toNat_natCast]
  have hcat := layout_cat (outData C σ.pushed (dn ++ [σ.current]))
    (chunkData (C.base k) (C.serverMarsh k) c) (outData_aligned hC _ _) []
  rw [List.nil_append, List.length_nil, List.nil_append] at hcat
  rw [(hC.base k).marshChunk (fun hbulk => hC.packed k (by simp [hbulk])) hc.fits hsize, h.out,
    hcat, outData_append, outData_append, hsame, ← hk, hone, hone, Function.update_self,
    List.append_assoc]
  congr 2
  rw [chunksData, chunksData, List.flatMap_append, List.flatMap_singleton]

/-- What is pushed are chunks of the pipe's base type. -/
theorem Inv.pushedChunks (h : Inv C S dn td σ) {c : List Elt} (hc : Chunk (C.base k) c) :
    ∀ j, ∀ c' ∈ Function.update σ.pushed k (σ.pushed k ++ [c]) j, Chunk (C.base j) c' := by
  intro j c' hc'
  by_cases hjk : j = k
  · subst hjk
    rw [Function.update_self] at hc'
    rcases List.mem_append.mp hc' with hc' | hc'
    · exact h.pushedChunk _ _ hc'
    · rwa [List.mem_singleton.mp hc']
  · rw [Function.update_of_ne hjk] at hc'
    exact h.pushedChunk _ _ hc'

/-- A chunk within the turn of an [out] pipe. -/
theorem Inv.pushChunk (hC : C.Ok) (h : Inv C S dn td σ) (hk : -(k : ℤ) = σ.current)
    (hfin : σ.current ≠ finishedWithPipes) {c : List Elt} (hc : Chunk (C.base k) c) (hnil : c ≠ [])
    {out : List Octet} (hout : out = layout 0
      (outData C (Function.update σ.pushed k (σ.pushed k ++ [c])) (dn ++ [σ.current]))) :
    Inv C S dn td { σ with pushed := Function.update σ.pushed k (σ.pushed k ++ [c]), out } := by
  have hcurr := (h.not_mem hC).1
  rw [← hk] at hcurr
  have hother : ∀ j, j ≠ k → Function.update σ.pushed k (σ.pushed k ++ [c]) j = σ.pushed j :=
    fun j hj => Function.update_of_ne hj _ _
  refine ⟨h.split, h.drained, h.filled, h.pulledDone, h.pulledTodo, h.reading, h.done, hout,
    fun j hj hfin' => ?_, fun j hj => ?_, fun j hj => ?_, h.pushedChunks hc⟩
  · have hne : j ≠ k := by
      rintro rfl
      exact hfin (hfin' hk)
    exact (hother j hne).trans (h.pushedTodo j hj hfin')
  · have hne : j ≠ k := by
      rintro rfl
      exact hcurr hj
    show Closed (Function.update σ.pushed k (σ.pushed k ++ [c]) j)
    rw [hother j hne]
    exact h.pushedDone j hj
  · show [] ∉ Function.update σ.pushed k (σ.pushed k ++ [c]) j
    by_cases hjk : j = k
    · subst hjk
      rw [Function.update_self]
      intro hmem
      rcases List.mem_append.mp hmem with hmem | hmem
      · exact h.pushedCurr _ hj hmem
      · exact hnil (List.mem_singleton.mp hmem).symm
    · rw [hother j hjk]
      exact h.pushedCurr j hj

/-- The chunk without elements, with which the turn comes to its end. -/
theorem Inv.pushEnd (hC : C.Ok) (h : Inv C S dn td σ) (hi : i ∈ (initServerPipes C.params).2)
    (hk : -(i.number : ℤ) = σ.current) (hfin : σ.current ≠ finishedWithPipes)
    (hc : Chunk (C.base i.number) []) {out : List Octet} (hout : out = layout 0
      (outData C (Function.update σ.pushed i.number (σ.pushed i.number ++ [[]]))
        (dn ++ [σ.current]))) :
    ∃ td', Inv C S (dn ++ [-(i.number : ℤ)]) td' { σ with
      pushed := Function.update σ.pushed i.number (σ.pushed i.number ++ [[]])
      out
      filled := Function.update σ.filled i.number true
      current := i.nextOut } := by
  obtain ⟨hpos, hle, hnonpos⟩ := nextOut_nonpos hi
  have hcurr := (h.not_mem hC).1
  rw [← hk] at hcurr
  have hin : ∀ j : ℕ, (j : ℤ) ≠ -(i.number : ℤ) := fun j => by omega
  have hother : ∀ j, j ≠ i.number →
      Function.update σ.pushed i.number (σ.pushed i.number ++ [[]]) j = σ.pushed j :=
    fun j hj => Function.update_of_ne hj _ _
  have hmem : σ.current ∈ allTurns C := by
    rw [h.split]
    exact List.mem_append_right _ List.mem_cons_self
  have hturn := mem_turns hmem hfin
  have hsplit := h.split
  rw [← hk] at hturn hsplit
  obtain ⟨td', rfl, hsplit', hnext'⟩ :=
    next_turn hC hsplit ((initServerPipes_follows hi).2 hturn)
  have hnext : i.nextOut ∉ dn ∧ i.nextOut ≠ -(i.number : ℤ) :=
    ⟨fun hmem => hnext' (List.mem_append_left _ hmem), fun heq =>
      hnext' (List.mem_append_right _ (heq ▸ List.mem_cons_self))⟩
  have hnextMem : i.nextOut ∈ allTurns C := by
    rw [hsplit']
    exact List.mem_append_right _ List.mem_cons_self
  have hzero := turns_ne_zero hnextMem
  -- the pipe is another one than those whose turn has not come
  have hlater : ∀ j : ℕ, -(j : ℤ) ∉ dn ++ [-(i.number : ℤ)] → j ≠ i.number := by
    rintro j hj rfl
    exact hj (List.mem_append_right _ List.mem_cons_self)
  refine ⟨td', hsplit', fun j => ?_, mark_iff (neg_injective.comp Nat.cast_injective) h.filled _,
    fun j hj => ?_, fun j hj hcurr' => ?_, fun j hj => ?_, fun _ => h.done (.inl (by omega)), ?_,
    fun j hj hfin' => ?_, fun j hj => ?_, fun j hj => ?_, h.pushedChunks hc⟩
  · rw [List.mem_append, List.mem_singleton, or_iff_left (hin j)]
    exact h.drained j
  · rcases List.mem_append.mp hj with hj | hj
    · exact h.pulledDone j hj
    · exact absurd (List.mem_singleton.mp hj) (hin j)
  · exact h.pulledTodo j (fun hmem => hj (List.mem_append_left _ hmem)) (by
      rw [← hk]
      exact hin j)
  · have hj' : (j : ℤ) = i.nextOut := hj
    omega
  · -- the pipe that is next, if it is an [out] one, has no chunk yet
    refine Eq.trans hout ?_
    rw [hk, outData_append C _ (dn ++ [σ.current]), outData_singleton C (t := i.nextOut),
      List.append_nil]
    intro hlt
    have hne : (-i.nextOut).toNat ≠ i.number := fun heq => hnext.2 (by omega)
    refine (hother _ hne).trans (h.pushedTodo _ ?_ ?_)
    · rw [Int.toNat_of_nonneg (by omega), neg_neg]
      exact hnext.1
    · rw [Int.toNat_of_nonneg (by omega), neg_neg, ← hk]
      exact fun heq => absurd heq hnext.2
  · refine (hother j (hlater j hj)).trans ?_
    refine h.pushedTodo j (fun hmem => hj (List.mem_append_left _ hmem)) fun heq => ?_
    rw [← hk] at heq
    exact absurd (by omega) (hlater j hj)
  · show Closed (Function.update σ.pushed i.number (σ.pushed i.number ++ [[]]) j)
    by_cases hji : j = i.number
    · subst hji
      rw [Function.update_self]
      exact ⟨_, rfl, h.pushedCurr _ hcurr⟩
    · rw [hother j hji]
      rcases List.mem_append.mp hj with hj | hj
      · exact h.pushedDone j hj
      · have := List.mem_singleton.mp hj
        omega
  · show [] ∉ Function.update σ.pushed i.number (σ.pushed i.number ++ [[]]) j
    rw [hother j (hlater j hj)]
    exact h.pushedCurr j fun hmem => hj (List.mem_append_left _ hmem)

/-- A manager pushes. -/
theorem inv_push (hC : C.Ok) (h : Inv C S dn td σ) (hi : i ∈ (initServerPipes C.params).2)
    (hraised : σ.raised = none) {c : List Elt} (hc : Chunk (C.base i.number) c)
    (hsize : C.serverMarsh i.number = true →
      (C.base i.number).bulkLen c.length * (C.base i.number).size < 2 ^ 32) :
    ∃ dn' td', Inv C S dn' td'
      (push (C.base i.number) (C.serverMarsh i.number) i c σ) := by
  obtain ⟨hpos, hle, -⟩ := nextOut_nonpos hi
  rw [push]
  split
  · exact ⟨dn, td, inv_raise h hraised _⟩
  split
  · exact ⟨dn, td, inv_raise h hraised _⟩
  case isFalse hne =>
    have hk : -(i.number : ℤ) = σ.current := by
      have := not_not.mp hne
      omega
    have hcount := hC.count
    have hfin : σ.current ≠ finishedWithPipes := by
      rw [← hk, finishedWithPipes]
      omega
    have hout := out_pushed hC h hk hpos hc hsize
    by_cases hnil : c = []
    · subst hnil
      rw [if_pos List.length_nil]
      obtain ⟨td', hinv⟩ := h.pushEnd hC hi hk hfin hc hout
      exact ⟨_, td', hinv⟩
    · rw [if_neg fun hlen => hnil (List.length_eq_zero_iff.mp hlen)]
      exact ⟨dn, td, h.pushChunk hC hk hfin hc hnil hout⟩

/-! ### Runs of the manager -/

/-- The receive side when the manager is called: at the chunks of the first [in] pipe, behind the
other [in] parameters, or, where there is no [in] pipe, with the buffer given back. -/
def Ready (C : Call) (S : ℕ → List Pull) (others : List Octet) (rcv : Rcv) : Prop :=
  if numbered Param.isIn C.params 0 = [] then
    rcv.elt = none ∧ ∃ n, rcv.released = List.range n
  else ∀ out, marshPipes C S (numbered Param.isIn C.params 0) others = some out →
    At rcv others.length (out.drop others.length)

/-- What the client has, and what a use out of turn does, in a state of the server. -/
structure Delivered (C : Call) (S : ℕ → List Pull) (σ : Srv) : Prop where
  pulled : ∀ k : ℕ, (k : ℤ) ∈ turns C.params → σ.pulled k <+: supply S k
  drained : ∀ k : ℕ, σ.drained k = true → σ.pulled k = supply S k
  turn : ∃ dn td, turns C.params ++ [finishedWithPipes] = dn ++ σ.current :: td ∧
    (∀ k : ℕ, σ.drained k = true ↔ (k : ℤ) ∈ dn) ∧ ∀ k : ℕ, σ.filled k = true ↔ -(k : ℤ) ∈ dn
  misuse : ∀ u : Use, (blockOf C u.pipe).isSome = true → u.turn ≠ σ.current →
    ∃ e, step C σ u = some (raise e σ)
  released : ∃ n, σ.rcv.released = List.range n ∧
    σ.rcv.elt = if 0 < σ.current ∧ σ.raised = none then some n else none
  pushed : σ.current = finishedWithPipes → ∀ grant : ℕ → ℕ → ℕ,
    (∀ k j, (C.base k).size ≤ grant k j ∧ grant k j < 2 ^ 32) → ∀ ds rcv,
    At rcv 0 (σ.out ++ layout σ.out.length ds) → ∃ N, ∀ fuel, N ≤ fuel → ∃ r rcv' q,
      unmarPipes C grant fuel (numbered Param.isOut C.params 0) rcv = some (r, rcv') ∧
      At rcv' q (layout q ds) ∧ r.map Prod.fst = numbered Param.isOut C.params 0 ∧
      ∀ x ∈ r, x.2.flatten = (σ.pushed x.1).flatten ∧ Closed x.2

theorem mem_turns_in : (k : ℤ) ∈ turns C.params ↔ k ∈ numbered Param.isIn C.params 0 := by
  rw [turns, List.mem_append, List.mem_map, List.mem_map]
  constructor
  · rintro (⟨j, hj, heq⟩ | ⟨j, hj, heq⟩)
    · obtain rfl : j = k := by exact_mod_cast heq
      exact hj
    · have := ((numbered_bounds _ _ 0).1 j hj).1
      omega
  · exact fun hk => .inl ⟨k, hk, rfl⟩

/-- The client's [in] pipes, one after the other. -/
theorem marshPipes_eq (hC : C.Ok) (hS : Supplied C S) {ks : List ℕ}
    (hks : ∀ k ∈ ks, (k : ℤ) ∈ turns C.params) (out : List Octet) :
    marshPipes C S ks out = some (out ++ layout out.length
      (ks.flatMap fun k => chunksData (C.base k) (C.clientMarsh k) (chunksOf S k))) := by
  induction ks generalizing out with
  | nil => rw [marshPipes, List.flatMap_nil, layout, List.append_nil]
  | cons k ks ih =>
    obtain ⟨hpull, hclosed⟩ := hS k (hks k List.mem_cons_self)
    rw [marshPipes, marshPipe_eq (hC.base k) (fun hbulk => hC.packed k (by simp [hbulk])) hpull
      hclosed]
    simp only [Option.bind_eq_bind, Option.bind_some]
    rw [ih fun j hj => hks j (List.mem_cons_of_mem _ hj), List.flatMap_cons,
      layout_cat _ _ ((hC.base k).chunksData_aligned _ _)]
    rfl

theorem inData_turns (C : Call) (S : ℕ → List Pull) :
    inData C S (allTurns C) = (numbered Param.isIn C.params 0).flatMap fun k =>
      chunksData (C.base k) (C.clientMarsh k) (chunksOf S k) := by
  have hout : ((numbered Param.isOut C.params 0).map fun k : ℕ => -(k : ℤ)).flatMap (fun t =>
      if 0 < t then chunksData (C.base t.toNat) (C.clientMarsh t.toNat) (chunksOf S t.toNat)
      else []) = [] := by
    rw [List.flatMap_eq_nil_iff]
    intro t ht
    obtain ⟨k, -, rfl⟩ := List.mem_map.mp ht
    exact if_neg (by omega)
  rw [inData, allTurns, turns, List.flatMap_append, List.flatMap_append, hout, List.append_nil,
    List.flatMap_singleton, if_neg (by decide), List.append_nil, List.flatMap_map]
  refine List.flatMap_congr fun k hk => ?_
  have := ((numbered_bounds _ _ 0).1 k hk).1
  rw [if_pos (by omega), Int.toNat_natCast]

theorem outData_turns (C : Call) (pushed : ℕ → List (List Elt)) :
    outData C pushed (turns C.params) = (numbered Param.isOut C.params 0).flatMap fun k =>
      chunksData (C.base k) (C.serverMarsh k) (pushed k) := by
  have hin : ((numbered Param.isIn C.params 0).map (Nat.cast : ℕ → ℤ)).flatMap (fun t =>
      if t < 0 then chunksData (C.base (-t).toNat) (C.serverMarsh (-t).toNat) (pushed (-t).toNat)
      else []) = [] := by
    rw [List.flatMap_eq_nil_iff]
    intro t ht
    obtain ⟨k, -, rfl⟩ := List.mem_map.mp ht
    exact if_neg (by omega)
  rw [outData, turns, List.flatMap_append, hin, List.nil_append, List.flatMap_map]
  refine List.flatMap_congr fun k hk => ?_
  have := ((numbered_bounds _ _ 0).1 k hk).1
  rw [if_pos (by omega), neg_neg, Int.toNat_natCast]

/-- The stub is ready. -/
theorem inv_start (hC : C.Ok) (hS : Supplied C S) {others : List Octet} {rcv : Rcv}
    (hrcv : Ready C S others rcv) : ∃ td, Inv C S [] td (start C rcv) := by
  obtain ⟨l, hl⟩ := initServerPipes_first hC.pipes
  have hsplit : allTurns C = (initServerPipes C.params).1 :: (l ++ [finishedWithPipes]) := by
    rw [allTurns, hl]
    rfl
  have hnil : ∀ t : ℤ, t ∉ ([] : List ℤ) := fun t => List.not_mem_nil
  have hfirst : (initServerPipes C.params).1 ∈ turns C.params := by
    rw [hl]
    exact List.mem_cons_self
  refine ⟨l ++ [finishedWithPipes], hsplit, fun k => iff_of_false Bool.false_ne_true (hnil _),
    fun k => iff_of_false Bool.false_ne_true (hnil _), fun k hk => absurd hk (hnil _),
    fun k _ _ => ⟨rfl, rfl⟩, fun k hk => ?_, fun hdone => ?_, ?_, fun k _ _ => rfl,
    fun k hk => absurd hk (hnil _), fun k _ => List.not_mem_nil, fun k c hc => by cases hc⟩
  · have hk' : (k : ℤ) = (initServerPipes C.params).1 := hk
    rw [← hk'] at hfirst hsplit
    have hpos : 0 < k := ((numbered_bounds _ _ 0).1 k (mem_turns_in.mp hfirst)).1
    have hne : numbered Param.isIn C.params 0 ≠ [] := by
      intro hempty
      have := mem_turns_in.mp hfirst
      rw [hempty] at this
      cases this
    rw [Ready, if_neg hne] at hrcv
    have hat := hrcv _ (marshPipes_eq hC hS (fun k hk => mem_turns_in.mpr hk) others)
    rw [List.drop_left, ← inData_turns, hsplit] at hat
    obtain ⟨hclosed, hsizes, hreading⟩ := hS.reading hfirst hpos hat
    refine ⟨[], chunksOf S k, rfl, fun _ => ⟨rfl, hclosed, ?_, hsizes, hreading⟩⟩
    rw [List.length_nil, Nat.zero_mul]
    norm_num
  · have hneg : (initServerPipes C.params).1 < 0 := by
      rcases hdone with hneg | hne
      · exact hneg
      · exact absurd rfl hne
    have hempty : numbered Param.isIn C.params 0 = [] := by
      cases hin : numbered Param.isIn C.params 0 with
      | nil => rfl
      | cons k ks =>
        rw [turns, hin] at hl
        have := (List.cons.inj hl).1
        omega
    rw [Ready, if_pos hempty] at hrcv
    exact hrcv
  · show [] = _
    rw [List.nil_append, outData_singleton C fun _ => rfl]
    rfl

theorem step_spec (hC : C.Ok) (hS : Supplied C S) (σ : Srv) (u : Use)
    (h : ∃ dn td, Inv C S dn td σ) (hu : Allowed C σ u) :
    ∃ σ', step C σ u = some σ' ∧ ∃ dn td, Inv C S dn td σ' := by
  obtain ⟨dn, td, h⟩ := h
  obtain ⟨hnone, hsome, hchunk⟩ := hu
  obtain ⟨i, hblock⟩ := Option.isSome_iff_exists.mp hsome
  obtain ⟨hi, hnumber⟩ := blockOf_spec hblock
  rw [step, hblock, Option.bind_some]
  cases u with
  | pull k esize =>
    obtain rfl : i.number = k := hnumber
    obtain ⟨σ', dn', td', hσ', hinv⟩ := inv_pull hC hS h hi hnone esize
    exact ⟨σ', hσ', dn', td', hinv⟩
  | push k c =>
    obtain rfl : i.number = k := hnumber
    obtain ⟨dn', td', hinv⟩ := inv_push hC h hi hnone hchunk.1 hchunk.2
    exact ⟨_, rfl, dn', td', hinv⟩

/-- The client's [out] pipes, one after the other. -/
theorem unmarPipes_spec (hC : C.Ok) {grant : ℕ → ℕ → ℕ}
    (hgrant : ∀ k j, (C.base k).size ≤ grant k j ∧ grant k j < 2 ^ 32)
    {pushed : ℕ → List (List Elt)} {ks : List ℕ} (hclosed : ∀ k ∈ ks, Closed (pushed k))
    (hchunk : ∀ k, ∀ c ∈ pushed k, Chunk (C.base k) c) {fuel p : ℕ}
    (hfuel : ∀ k ∈ ks, ((pushed k).map List.length).sum < fuel)
    (h : At s p (layout p ((ks.flatMap fun k =>
      chunksData (C.base k) (C.serverMarsh k) (pushed k)) ++ ds))) :
    ∃ r s' q, unmarPipes C grant fuel ks s = some (r, s') ∧ At s' q (layout q ds) ∧
      r.map Prod.fst = ks ∧ ∀ x ∈ r, x.2.flatten = (pushed x.1).flatten ∧ Closed x.2 := by
  induction ks generalizing s p with
  | nil => exact ⟨[], s, p, rfl, h, rfl, fun x hx => (List.not_mem_nil hx).elim⟩
  | cons k ks ih =>
    rw [List.flatMap_cons, List.append_assoc] at h
    have hread : Reading (C.base k) (C.serverMarsh k) s [] (pushed k) ((ks.flatMap fun k =>
        chunksData (C.base k) (C.serverMarsh k) (pushed k)) ++ ds) :=
      ⟨⟨p, h⟩, ⟨by norm_num, fun e he => (List.not_mem_nil he).elim⟩, hchunk k⟩
    obtain ⟨ps, s₁, q, h₁, hat₁, hps, hclosed₁⟩ := unmarPipe_spec (C.clientUnmar k)
      (hC.base k) (fun hbulk => hC.packed k (by simp [hbulk])) (hC.sameOut k) (hgrant k) (j := 0)
      (by rw [List.length_nil, Nat.zero_add]; exact hfuel k List.mem_cons_self) hread
      (hclosed k List.mem_cons_self)
    obtain ⟨r, s₂, q₂, h₂, hat₂, hr, hrs⟩ := ih (fun j hj => hclosed j (List.mem_cons_of_mem _ hj))
      (fun j hj => hfuel j (List.mem_cons_of_mem _ hj)) hat₁
    refine ⟨(k, ps) :: r, s₂, q₂, ?_, hat₂, ?_, fun x hx => ?_⟩
    · rw [List.length_nil] at h₁
      rw [unmarPipes, h₁]
      simp only [Option.bind_eq_bind, Option.bind_some, h₂]
    · rw [List.map_cons, hr]
    · rcases List.mem_cons.mp hx with rfl | hx
      · exact ⟨hps, hclosed₁⟩
      · exact hrs x hx

/-- What holds in a state that a run has reached. -/
theorem Inv.delivered (h : Inv C S dn td σ) (hC : C.Ok) : Delivered C S σ where
  pulled k hk := by
    by_cases hdn : (k : ℤ) ∈ dn
    · rw [h.pulledDone k hdn]
    by_cases hcurr : (k : ℤ) = σ.current
    · obtain ⟨es, cs, hsupply, -⟩ := h.reading k hcurr
      rw [hsupply]
      exact List.prefix_append _ _
    · rw [(h.pulledTodo k hdn hcurr).1]
      exact List.nil_prefix
  drained k hk := h.pulledDone k ((h.drained k).mp hk)
  turn := ⟨dn, td, h.split, h.drained, h.filled⟩
  misuse u hu hturn := by
    obtain ⟨i, hblock⟩ := Option.isSome_iff_exists.mp hu
    obtain ⟨-, hnumber⟩ := blockOf_spec hblock
    rw [step, hblock, Option.bind_some]
    cases u with
    | pull k esize =>
      obtain rfl : i.number = k := hnumber
      dsimp only
      rw [Pipe.pull]
      split
      · exact ⟨_, rfl⟩
      · exact ⟨_, if_pos hturn⟩
    | push k c =>
      obtain rfl : i.number = k := hnumber
      have hturn' : -(i.number : ℤ) ≠ σ.current := hturn
      dsimp only
      rw [Pipe.push]
      split
      · exact ⟨_, rfl⟩
      · exact ⟨.order, congrArg some (if_pos fun heq => hturn' (by omega))⟩
  released := by
    have hmem : σ.current ∈ allTurns C := by
      rw [h.split]
      exact List.mem_append_right _ List.mem_cons_self
    have hzero := turns_ne_zero hmem
    by_cases hheld : 0 < σ.current ∧ σ.raised = none
    · obtain ⟨es, cs, -, hread⟩ := h.reading σ.current.toNat (Int.toNat_of_nonneg (by omega))
      obtain ⟨-, -, -, -, hread⟩ := hread hheld.2
      obtain ⟨p, hat⟩ := hread.here
      obtain ⟨n, helt, hn⟩ := hat.live
      exact ⟨n, hn, by rw [if_pos hheld, helt]⟩
    · have hdone : σ.current < 0 ∨ σ.raised ≠ none := by
        by_contra hnot
        obtain ⟨hneg, hne⟩ := not_or.mp hnot
        exact hheld ⟨by omega, not_not.mp hne⟩
      obtain ⟨helt, n, hn⟩ := h.done hdone
      exact ⟨n, hn, by rw [if_neg hheld, helt]⟩
  pushed hfin grant hgrant ds rcv hrcv := by
    obtain ⟨hcurr, htodo⟩ := h.not_mem hC
    rw [hfin] at hcurr htodo
    have hsplit := h.split
    rw [hfin] at hsplit
    -- nothing comes behind the end
    obtain rfl : td = [] := by
      rcases List.eq_nil_or_concat' td with rfl | ⟨td', t, rfl⟩
      · rfl
      · rw [allTurns, ← List.cons_append, ← List.append_assoc] at hsplit
        have := (List.append_inj' hsplit rfl).2
        rw [List.cons.inj this |>.1] at htodo
        exact absurd (List.mem_append_right _ List.mem_cons_self) htodo
    obtain rfl : dn = turns C.params := (List.append_inj' hsplit rfl).1.symm
    have hout : σ.out = layout 0 ((numbered Param.isOut C.params 0).flatMap fun k =>
        chunksData (C.base k) (C.serverMarsh k) (σ.pushed k)) := by
      rw [h.out, hfin, outData_append, outData_singleton C (t := finishedWithPipes),
        List.append_nil, outData_turns]
      exact fun _ => h.pushedTodo 32767 hcurr fun _ => hfin
    have hcat := layout_cat ((numbered Param.isOut C.params 0).flatMap fun k =>
      chunksData (C.base k) (C.serverMarsh k) (σ.pushed k)) ds (fun d hd => by
        obtain ⟨k, -, hd⟩ := List.mem_flatMap.mp hd
        exact (hC.base k).chunksData_aligned _ _ d hd) []
    rw [List.nil_append, List.length_nil, List.nil_append, ← hout] at hcat
    rw [hcat] at hrcv
    refine ⟨((numbered Param.isOut C.params 0).map fun k =>
      ((σ.pushed k).map List.length).sum).sum + 1, fun fuel hfuel => ?_⟩
    refine unmarPipes_spec hC hgrant (fun k hk => h.pushedDone k ?_) h.pushedChunk
      (fun k hk => ?_) hrcv
    · rw [turns]
      exact List.mem_append_right _ (List.mem_map_of_mem hk)
    · have := List.single_le_sum (fun _ _ => Nat.zero_le _) _
        (List.mem_map_of_mem (f := fun k => ((σ.pushed k).map List.length).sum) hk)
      exact Nat.lt_of_le_of_lt this (by omega)

/-- **Pipes deliver** in every run of the manager: what it pulls is what the client supplies, and
what the client is pushed is what it pushes; a use out of turn raises, and each receive buffer is
given back once. -/
theorem pipes_deliver (hC : C.Ok) (hS : Supplied C S) {others : List Octet} {rcv : Rcv}
    (hrcv : Ready C S others rcv) {us : List Use}
    (hus : Runs.Along (step C) (Allowed C) (start C rcv) us) :
    ∃ σ, Runs.exec (step C) (start C rcv) us = some σ ∧ Delivered C S σ := by
  obtain ⟨td, hstart⟩ := inv_start hC hS hrcv
  obtain ⟨σ, hσ, dn, td', hinv⟩ :=
    Runs.exec_of_along (I := fun σ => ∃ dn td, Inv C S dn td σ) (step_spec hC hS)
      ⟨[], td, hstart⟩ hus
  exact ⟨σ, hσ, hinv.delivered hC⟩

/-- An operation with an [in] pipe and an [out] pipe of longs. -/
def echo : Call where
  params := [⟨.pipe, true, false⟩, ⟨.pointer .pipe, false, true⟩]
  base _ := ⟨.scalar, 4, [.scalar 4], 1, 4⟩
  clientMarsh _ := true
  clientUnmar _ := true
  serverMarsh _ := true
  serverUnmar _ := true

/-- One element goes to the manager and back. -/
theorem pipes_deliver_echo : ∃ σ, Runs.exec (step echo)
    (start echo ⟨some 0, [1, 0, 0, 0, 1, 2, 3, 4, 0, 0, 0, 0].map some, 0, [], []⟩)
    [.pull 1 8, .pull 1 8, .push 2 [[[[1, 2, 3, 4]]]], .push 2 []] = some σ ∧
      Delivered echo (fun _ => [⟨4, [[[[1, 2, 3, 4]]]]⟩, ⟨4, []⟩]) σ := by
  have hbase : ∀ k, (echo.base k).Ok := fun k => by
    refine ⟨⟨2, rfl⟩, fun f hf => ?_, fun _ => rfl, Nat.one_pos, Nat.succ_pos 3, fun _ => rfl⟩
    rw [List.mem_singleton.mp hf]
    exact dvd_rfl
  have hfits : ∀ k, ∀ e ∈ [[[[1, 2, 3, 4]]]], (echo.base k).FitsElt e := fun k e he => by
    rw [List.mem_singleton.mp he]
    refine ⟨rfl, fun u hu => ?_⟩
    rw [List.mem_singleton.mp hu]
    exact ⟨_, _, rfl, rfl, rfl⟩
  have hpacked : ∀ k, (echo.base k).Packed := fun k => by
    show 4 = 1 * alignUp (fieldsEnd [.align 4, .scalar 4] 0) 4
    rfl
  have hC : echo.Ok := ⟨by decide, by decide, hbase, fun k _ => hpacked k, fun _ _ => .inl rfl,
    fun _ _ => .inl rfl⟩
  have hS : Supplied echo fun _ => [⟨4, [[[[1, 2, 3, 4]]]]⟩, ⟨4, []⟩] := fun k _ => by
    refine ⟨fun r hr => ?_, [[[[[1, 2, 3, 4]]]]], rfl, by decide⟩
    rcases List.mem_cons.mp hr with rfl | hr
    · exact ⟨le_rfl, by decide, (by decide : 1 ≤ 4 / 4), hfits k⟩
    · rw [List.mem_singleton.mp hr]
      exact ⟨le_rfl, by decide, Nat.zero_le _, fun e he => (List.not_mem_nil he).elim⟩
  have hready : Ready echo (fun _ => [⟨4, [[[[1, 2, 3, 4]]]]⟩, ⟨4, []⟩]) []
      ⟨some 0, [1, 0, 0, 0, 1, 2, 3, 4, 0, 0, 0, 0].map some, 0, [], []⟩ := by
    rw [Ready, if_neg (by decide)]
    intro out hout
    obtain rfl : [1, 0, 0, 0, 1, 2, 3, 4, 0, 0, 0, 0].map some = out := Option.some_inj.mp hout
    exact ⟨⟨0, rfl, rfl⟩, Nat.zero_le _, rfl, List.cons_ne_nil _ _, rfl⟩
  refine pipes_deliver hC hS hready ?_
  refine Runs.along_cons.mpr ⟨⟨rfl, by decide, trivial⟩, fun σ₁ hσ₁ => ?_⟩
  obtain rfl := Option.some_inj.mp hσ₁
  refine Runs.along_cons.mpr ⟨⟨rfl, by decide, trivial⟩, fun σ₂ hσ₂ => ?_⟩
  obtain rfl := Option.some_inj.mp hσ₂
  refine Runs.along_cons.mpr ⟨⟨rfl, by decide, ⟨by decide, hfits 2⟩, fun _ => by decide⟩,
    fun σ₃ hσ₃ => ?_⟩
  obtain rfl := Option.some_inj.mp hσ₃
  exact Runs.along_cons.mpr ⟨⟨rfl, by decide, ⟨by decide, fun e he => (List.not_mem_nil he).elim⟩,
    fun _ => by decide⟩, fun _ _ => trivial⟩

/-- An operation with an [in] pipe of arrays of one structure, a hyper and a long; the server has
another representation of integers. -/
def arrays : Call where
  params := [⟨.pipe, true, false⟩]
  base _ := ⟨.array, 8, [.scalar 8, .scalar 4], 1, 16⟩
  clientMarsh _ := true
  clientUnmar _ := true
  serverMarsh _ := true
  serverUnmar _ := false

/-- The client sends the padding behind the last structure, and the server takes it for the next
count. -/
theorem padding_taken_for_count :
    marshPipes arrays (fun _ => [⟨16, [[[[1, 2, 3, 4, 5, 6, 7, 8], [9, 10, 11, 12]]]]⟩, ⟨16, []⟩])
      [1] [] = some ([1, 0, 0, 0].map some ++ List.replicate 4 none ++
        [1, 2, 3, 4, 5, 6, 7, 8, 9, 10, 11, 12].map some ++ List.replicate 4 none ++
        [0, 0, 0, 0].map some) ∧
    (Runs.exec (step arrays) (start arrays ⟨some 0, [1, 0, 0, 0].map some ++
      List.replicate 4 none ++ [1, 2, 3, 4, 5, 6, 7, 8, 9, 10, 11, 12].map some ++
      List.replicate 4 none ++ [0, 0, 0, 0].map some, 0, [], []⟩)
      [.pull 1 1, .pull 1 1]).isNone = true := by
  decide

end Pipe

end Idl
