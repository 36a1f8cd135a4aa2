/-
The order in which the pipes of an operation are used (mtspipes.c, pipesupp.c).

The back end numbers the pipe parameters of an operation and gives the state block of each the
index of the pipe that is next once it is drained, and of the one that is next once it is filled.
The index of an [out] pipe is negative.

* `numbered_append`, `getNextPipeIndex_eq` — the numbers, and the search for the next of them;
* `initServerPipes_follows` — from each pipe the indices lead on to the next turn: the [in] pipes
  in the order of the parameters, and then the [out] pipes;
* `nodup_turns` — a turn does not come again, nor is one taken for the end, where there are fewer
  than 32767 pipes.
-/
import FreeDce.Lib.Runs

namespace Idl

namespace Pipe

/-! ### Parameters -/

inductive TypeKind
  | pipe
  | pointer (pointee : TypeKind)
  | other
deriving DecidableEq

structure Param where
  type : TypeKind
  isIn : Bool
  isOut : Bool
deriving DecidableEq

/-- A pipe, or a pointer to a pipe. -/
def Param.isPipe (p : Param) : Bool := p.type = .pipe ∨ p.type = .pointer .pipe

/-- `BE_FINISHED_WITH_PIPES`. -/
def finishedWithPipes : ℤ := -32767

/-! ### `DDBE_init_server_pipes` -/

/-- `BE_get_next_pipe_index`, from the parameter behind the current one. -/
def getNextPipeIndex (dir : Param → Bool) : List Param → ℕ → ℕ
  | [], _ => 0
  | p :: ps, curr =>
    if p.isPipe then
      if dir p then curr + 1 else getNextPipeIndex dir ps (curr + 1)
    else getNextPipeIndex dir ps curr

/-- The loop that establishes `first_in_pipe` or `first_out_pipe`. -/
def firstPipeLoop (dir : Param → Bool) : List Param → ℕ → ℕ → ℕ
  | [], _, first => first
  | p :: ps, curr, first =>
    if p.isPipe then
      firstPipeLoop dir ps (curr + 1) (if dir p ∧ first = 0 then curr + 1 else first)
    else firstPipeLoop dir ps curr first

/-- The arguments of `rpc_ss_mts_init_callee_pipe` for a pipe. -/
structure PipeInit where
  number : ℕ
  nextIn : ℤ
  nextOut : ℤ
deriving DecidableEq

def nextInPipe (p : Param) (ps : List Param) (curr firstOut : ℕ) : ℤ :=
  if p.isIn then
    if getNextPipeIndex Param.isIn ps curr = 0 then
      if firstOut ≠ 0 then -(firstOut : ℤ) else finishedWithPipes
    else getNextPipeIndex Param.isIn ps curr
  else 0

def nextOutPipe (p : Param) (ps : List Param) (curr : ℕ) : ℤ :=
  if p.isOut then
    if getNextPipeIndex Param.isOut ps curr = 0 then finishedWithPipes
    else -(getNextPipeIndex Param.isOut ps curr : ℤ)
  else 0

/-- The loop that emits the initializations. -/
def emitLoop (firstOut : ℕ) : List Param → ℕ → List PipeInit
  | [], _ => []
  | p :: ps, curr =>
    if p.isPipe then
      ⟨curr + 1, nextInPipe p ps (curr + 1) firstOut, nextOutPipe p ps (curr + 1)⟩ ::
        emitLoop firstOut ps (curr + 1)
    else emitLoop firstOut ps curr

/-- `DDBE_init_server_pipes`: the index and direction of the first pipe, and the state blocks. -/
def initServerPipes (ps : List Param) : ℤ × List PipeInit :=
  let firstIn := firstPipeLoop Param.isIn ps 0 0
  let firstOut := firstPipeLoop Param.isOut ps 0 0
  (if firstIn ≠ 0 then firstIn else -(firstOut : ℤ), emitLoop firstOut ps 0)

/-! ### The turns -/

/-- The numbers of the pipes of a direction. -/
def numbered (dir : Param → Bool) : List Param → ℕ → List ℕ
  | [], _ => []
  | p :: ps, curr =>
    if p.isPipe then
      if dir p then (curr + 1) :: numbered dir ps (curr + 1) else numbered dir ps (curr + 1)
    else numbered dir ps curr

def countPipes (ps : List Param) : ℕ := ps.countP Param.isPipe

/-- The turns of the pipes: the [in] pipes in the order of the parameters, then the [out] pipes. -/
def turns (ps : List Param) : List ℤ :=
  (numbered Param.isIn ps 0).map Nat.cast ++ (numbered Param.isOut ps 0).map fun k : ℕ => -(k : ℤ)

/-- In the list `b` comes right after `a`. -/
def Follows (l : List ℤ) (a b : ℤ) : Prop := ∃ l₁ l₂, l = l₁ ++ a :: b :: l₂

variable {dir : Param → Bool} {ps pre post : List Param} {p : Param} {curr k : ℕ}

theorem countPipes_cons (p : Param) (ps : List Param) :
    countPipes (p :: ps) = countPipes ps + if p.isPipe then 1 else 0 := by
  simp [countPipes, List.countP_cons]

theorem numbered_append (pre post : List Param) (curr : ℕ) :
    numbered dir (pre ++ post) curr =
      numbered dir pre curr ++ numbered dir post (curr + countPipes pre) := by
  induction pre generalizing curr with
  | nil => rfl
  | cons p pre ih =>
    rw [List.cons_append, numbered, numbered, countPipes_cons]
    split
    · rw [ih, show curr + 1 + countPipes pre = curr + (countPipes pre + 1) by omega]
      split <;> rfl
    · rw [ih]
      rfl

/-- The numbers grow, and are those of pipes. -/
theorem numbered_bounds (dir : Param → Bool) (ps : List Param) (curr : ℕ) :
    (∀ k ∈ numbered dir ps curr, curr < k ∧ k ≤ curr + countPipes ps) ∧
      (numbered dir ps curr).Nodup := by
  induction ps generalizing curr with
  | nil => exact ⟨fun k hk => (List.not_mem_nil hk).elim, .nil⟩
  | cons p ps ih =>
    rw [numbered, countPipes_cons]
    split
    · obtain ⟨hb, hnodup⟩ := ih (curr + 1)
      have hb' : ∀ k ∈ numbered dir ps (curr + 1), curr < k ∧ k ≤ curr + (countPipes ps + 1) := by
        intro k hk
        have := hb k hk
        omega
      split
      · refine ⟨fun k hk => ?_, List.nodup_cons.mpr ⟨fun hk => ?_, hnodup⟩⟩
        · rcases List.mem_cons.mp hk with rfl | hk
          · omega
          · exact hb' k hk
        · have := (hb _ hk).1
          omega
      · exact ⟨hb', hnodup⟩
    · exact ih curr

/-- The search finds the first of the numbers, which is not zero. -/
theorem getNextPipeIndex_eq (ps : List Param) (curr : ℕ) :
    getNextPipeIndex dir ps curr = (numbered dir ps curr).head?.getD 0 := by
  induction ps generalizing curr with
  | nil => rfl
  | cons p ps ih =>
    rw [getNextPipeIndex, numbered]
    split
    · split
      · rfl
      · exact ih _
    · exact ih _

theorem firstPipeLoop_eq (ps : List Param) (curr first : ℕ) :
    firstPipeLoop dir ps curr first =
      if first = 0 then getNextPipeIndex dir ps curr else first := by
  induction ps generalizing curr first with
  | nil => rw [firstPipeLoop, getNextPipeIndex]; split <;> simp_all
  | cons p ps ih =>
    rw [firstPipeLoop, getNextPipeIndex]
    split
    · rw [ih]
      by_cases hfirst : first = 0 <;> by_cases hdir : dir p <;> simp [hfirst, hdir]
    · exact ih _ _

/-- The index of a direction is zero just when no pipe of the direction is left. -/
theorem getNextPipeIndex_cases (dir : Param → Bool) (ps : List Param) (curr : ℕ) :
    (numbered dir ps curr = [] ∧ getNextPipeIndex dir ps curr = 0) ∨
    ∃ k l, numbered dir ps curr = k :: l ∧ getNextPipeIndex dir ps curr = k ∧ k ≠ 0 := by
  rw [getNextPipeIndex_eq]
  cases h : numbered dir ps curr with
  | nil => exact .inl ⟨rfl, rfl⟩
  | cons k l =>
    have := (numbered_bounds dir ps curr).1 k (h ▸ List.mem_cons_self)
    exact .inr ⟨k, l, rfl, rfl, by omega⟩

/-! ### The schedule -/

theorem mem_emitLoop {firstOut : ℕ} {i : PipeInit} (hi : i ∈ emitLoop firstOut ps curr) :
    ∃ pre p post, ps = pre ++ p :: post ∧ p.isPipe = true ∧ i.number = curr + countPipes pre + 1 ∧
      i.nextIn = nextInPipe p post i.number firstOut ∧ i.nextOut = nextOutPipe p post i.number := by
  induction ps generalizing curr with
  | nil => exact (List.not_mem_nil hi).elim
  | cons p ps ih =>
    rw [emitLoop] at hi
    split at hi
    case isTrue hp =>
      rcases List.mem_cons.mp hi with rfl | hi
      · exact ⟨[], p, ps, rfl, hp, rfl, rfl, rfl⟩
      · obtain ⟨pre, q, post, rfl, hq, hnumber, hin, hout⟩ := ih hi
        refine ⟨p :: pre, q, post, rfl, hq, ?_, hin, hout⟩
        rw [hnumber, countPipes_cons, if_pos hp]
        omega
    case isFalse hp =>
      obtain ⟨pre, q, post, rfl, hq, hnumber, hin, hout⟩ := ih hi
      refine ⟨p :: pre, q, post, rfl, hq, ?_, hin, hout⟩
      rw [hnumber, countPipes_cons, if_neg hp]
      omega

theorem numbered_split (hp : p.isPipe = true) (hdir : dir p = true) :
    numbered dir (pre ++ p :: post) 0 =
      numbered dir pre 0 ++ (countPipes pre + 1) :: numbered dir post (countPipes pre + 1) := by
  rw [numbered_append, numbered, if_pos hp, if_pos hdir, Nat.zero_add]

/-- The first turn is the index that the stub starts with. -/
theorem initServerPipes_first (h : turns ps ≠ []) :
    ∃ l, turns ps = (initServerPipes ps).1 :: l := by
  rw [turns] at h ⊢
  rw [initServerPipes]
  simp only [firstPipeLoop_eq, if_true]
  rcases getNextPipeIndex_cases Param.isIn ps 0 with ⟨hin, hzero⟩ | ⟨k, l, hin, heq, hk⟩
  · rw [hin] at h ⊢
    rcases getNextPipeIndex_cases Param.isOut ps 0 with ⟨hout, -⟩ | ⟨k, l, hout, heq, -⟩
    · rw [hout] at h
      exact absurd rfl h
    · rw [hout, hzero, heq]
      exact ⟨_, rfl⟩
  · rw [hin, heq, if_pos hk]
    exact ⟨_, rfl⟩

/-- From each pipe the indices lead on to the next turn, and from the last to the end. -/
theorem initServerPipes_follows {i : PipeInit} (hi : i ∈ (initServerPipes ps).2) :
    ((i.number : ℤ) ∈ turns ps → Follows (turns ps ++ [finishedWithPipes]) i.number i.nextIn) ∧
    (-(i.number : ℤ) ∈ turns ps →
      Follows (turns ps ++ [finishedWithPipes]) (-i.number) i.nextOut) := by
  obtain ⟨pre, p, post, rfl, hp, hnumber, hnextIn, hnextOut⟩ := mem_emitLoop hi
  rw [Nat.zero_add] at hnumber
  have hmem : ∀ dir : Param → Bool,
      i.number ∈ numbered dir (pre ++ p :: post) 0 → dir p = true := by
    intro dir hmem
    by_contra hdir
    rw [numbered_append, numbered, if_pos hp, if_neg hdir, Nat.zero_add] at hmem
    rcases List.mem_append.mp hmem with hmem | hmem
    · have := ((numbered_bounds dir pre 0).1 _ hmem).2
      omega
    · have := ((numbered_bounds dir post _).1 _ hmem).1
      omega
  have hfirst : firstPipeLoop Param.isOut (pre ++ p :: post) 0 0 =
      getNextPipeIndex Param.isOut (pre ++ p :: post) 0 := by rw [firstPipeLoop_eq, if_pos rfl]
  rw [hfirst] at hnextIn
  constructor
  · intro hturn
    have hin : p.isIn = true := by
      rw [turns, List.mem_append, List.mem_map, List.mem_map] at hturn
      rcases hturn with ⟨k, hk, heq⟩ | ⟨k, hk, heq⟩
      · obtain rfl : k = i.number := by exact_mod_cast heq
        exact hmem _ hk
      · have := ((numbered_bounds _ _ 0).1 k hk).1
        omega
    rw [nextInPipe, if_pos hin] at hnextIn
    rw [turns, numbered_split hp hin, ← hnumber]
    rcases getNextPipeIndex_cases Param.isIn post i.number with ⟨hnil, hzero⟩ | ⟨k, l, hl, heq, hk⟩
    · rw [if_pos hzero] at hnextIn
      rw [hnil]
      -- the [in] pipes are at their end
      rcases getNextPipeIndex_cases Param.isOut (pre ++ p :: post) 0 with
        ⟨hout, hzero⟩ | ⟨k, l, hout, heq, hk⟩
      · rw [if_neg (not_not.mpr hzero)] at hnextIn
        rw [hout, hnextIn]
        exact ⟨(numbered Param.isIn pre 0).map Nat.cast, [], by simp⟩
      · rw [heq, if_pos hk] at hnextIn
        rw [hout, hnextIn]
        exact ⟨(numbered Param.isIn pre 0).map Nat.cast,
          (l.map fun k : ℕ => -(k : ℤ)) ++ [finishedWithPipes], by simp⟩
    · rw [heq, if_neg hk] at hnextIn
      rw [hl, hnextIn]
      exact ⟨(numbered Param.isIn pre 0).map Nat.cast, l.map Nat.cast ++
        (numbered Param.isOut (pre ++ p :: post) 0).map (fun k : ℕ => -(k : ℤ)) ++
          [finishedWithPipes], by simp⟩
  · intro hturn
    have hout : p.isOut = true := by
      rw [turns, List.mem_append, List.mem_map, List.mem_map] at hturn
      rcases hturn with ⟨k, hk, heq⟩ | ⟨k, hk, heq⟩
      · have := ((numbered_bounds _ _ 0).1 k hk).1
        omega
      · obtain rfl : k = i.number := by omega
        exact hmem _ hk
    rw [nextOutPipe, if_pos hout] at hnextOut
    rw [turns, numbered_split hp hout, ← hnumber]
    rcases getNextPipeIndex_cases Param.isOut post i.number with ⟨hnil, hzero⟩ | ⟨k, l, hl, heq, hk⟩
    · rw [if_pos hzero] at hnextOut
      rw [hnil, hnextOut]
      exact ⟨(numbered Param.isIn (pre ++ p :: post) 0).map Nat.cast ++
        (numbered Param.isOut pre 0).map (fun k : ℕ => -(k : ℤ)), [], by simp⟩
    · rw [heq, if_neg hk] at hnextOut
      rw [hl, hnextOut]
      exact ⟨(numbered Param.isIn (pre ++ p :: post) 0).map Nat.cast ++
        (numbered Param.isOut pre 0).map (fun k : ℕ => -(k : ℤ)),
          l.map (fun k : ℕ => -(k : ℤ)) ++ [finishedWithPipes], by simp⟩

/-- Each turn comes once, and the end is told from the turns. -/
theorem nodup_turns (h : countPipes ps < 32767) : (turns ps ++ [finishedWithPipes]).Nodup := by
  have hin := numbered_bounds Param.isIn ps 0
  have hout := numbered_bounds Param.isOut ps 0
  rw [List.nodup_append', turns, List.nodup_append']
  refine ⟨⟨hin.2.map Nat.cast_injective,
    hout.2.map fun a b (hab : -(a : ℤ) = -(b : ℤ)) => by omega, ?_⟩, List.nodup_singleton _, ?_⟩
  · intro x hx hx'
    obtain ⟨k, hk, rfl⟩ := List.mem_map.mp hx
    obtain ⟨k', hk', heq⟩ := List.mem_map.mp hx'
    have := (hin.1 k hk).1
    omega
  · intro x hx hx'
    rw [List.mem_singleton.mp hx', finishedWithPipes, List.mem_append, List.mem_map,
      List.mem_map] at hx
    rcases hx with ⟨k, hk, heq⟩ | ⟨k, hk, heq⟩
    · omega
    · have := (hout.1 k hk).2
      omega

end Pipe

end Idl
