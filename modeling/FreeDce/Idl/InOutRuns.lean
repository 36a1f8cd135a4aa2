/-
The parameter descriptions of an operation in the type vector (ddbe.c).

The stubs hand the interpreter a number of parameters and the index of the first of them, once for
what is sent in and once for what is sent out.  The back end lays the descriptions of the [in]
parameters out first and those of the [out] parameters after them; where both are contiguous in the
parameter list anyway, every parameter is laid out once.

* `operInOutOpt_iff` — the orders of parameters for which that is done;
* `genOper_twice`, `genOper_once` — the two layouts, with the counts and the starts recorded;
* `runsExact_iff` — when the recorded runs are those of the operation.

The second layout takes no account of the entry for [reflect_deletions], which comes after the last
parameter: where [in] parameters stand between the [out] ones and it, the run of the [out]s takes
in an [in] parameter and misses the entry.
-/
import FreeDce.Lib.Slices
import Mathlib.Data.List.TakeWhile
import Mathlib.Data.List.DropRight

namespace Idl

open Slices

/-! ### Parameters -/

/-- What is asked of the type a pointer points to; `arrayRep` is the conformance of its
`array_rep_type`, where it has one. -/
structure Pointee where
  isPipe : Bool
  xmitAs : Bool
  repAs : Bool
  arrayRep : Option Bool
  deriving DecidableEq

inductive ParamKind where
  | handle
  | pipe
  | array (conformant : Bool)
  | pointer (pointee : Pointee)
  | other
  deriving DecidableEq

/-- A parameter node: its type with its own attributes, the parameter's, and what the generation
of the tuples left, `irep` for a parameter that has an intermediate representation. -/
structure ParamNode where
  kind : ParamKind
  xmitAs : Bool := false
  repAs : Bool := false
  isIn : Bool := false
  isOut : Bool := false
  isRef : Bool := false
  isString : Bool := false
  fieldAttrs : Bool := false
  addCommStatus : Bool := false
  addFaultStatus : Bool := false
  firstInNfCsArr : Bool := false
  firstOutNfCsArr : Bool := false
  lastInNfCsArr : Bool := false
  lastOutNfCsArr : Bool := false
  irep : Bool := true
  allocateRef : Bool := false
  deriving DecidableEq

namespace ParamNode

/-- `DDBE_ARRAYIFIED` with the `array_rep_type` found. -/
def arrayified (p : ParamNode) : Option Bool :=
  match p.kind with
  | .pointer pointee => if p.fieldAttrs || p.isString then pointee.arrayRep else none
  | _ => none

/-- `DDBE_PIPE`. -/
def pipe (p : ParamNode) : Bool :=
  match p.kind with
  | .pipe => true
  | .pointer pointee => pointee.isPipe
  | _ => false

/-- `DDBE_XMIT_REP`. -/
def xmitRep (p : ParamNode) : Bool :=
  (p.xmitAs || p.repAs) ||
    (p.isRef &&
      match p.kind with
      | .pointer pointee => (pointee.xmitAs || pointee.repAs) && p.arrayified.isNone
      | _ => false)

/-- `DDBE_ALLOCATE`. -/
def allocate (p : ParamNode) : Bool :=
  p.isOut && !p.isIn &&
    (match p.kind with
      | .array conformant => conformant
      | _ => p.arrayified == some true)

/-- The type vector has a description of the parameter numbered `num`. -/
def represented (num : ℕ) (p : ParamNode) : Bool :=
  p.irep && !(p.addCommStatus || p.addFaultStatus) && !(num == 1 && p.kind == .handle && p.repAs)

def inOnly (p : ParamNode) : Bool := p.isIn && !p.isOut

def inOut (p : ParamNode) : Bool := p.isIn && p.isOut

def outOnly (p : ParamNode) : Bool := !p.isIn && p.isOut

/-- The parameter has a description for the server side among the [in]s. -/
def needsStorage (p : ParamNode) : Bool := p.allocate || p.allocateRef

/-- The parameter has a description for the server side among the [out]s. -/
def needsFree (p : ParamNode) : Bool := p.inOnly && p.xmitRep

end ParamNode

/-- An operation.  Pipes and parameters with storage to allocate are described in tuples, and are
no status parameter of the ACF. -/
structure Operation where
  parameters : List ParamNode
  result : ParamNode
  reflectDeletions : Bool
  described : ∀ p ∈ parameters, p.pipe || p.needsStorage → ∀ num, p.represented num

namespace Operation

/-- `AST_HAS_IN_PIPES`. -/
def hasInPipes (oper : Operation) : Bool := oper.parameters.any fun p => p.isIn && p.pipe

/-- `AST_HAS_OUT_PIPES`. -/
def hasOutPipes (oper : Operation) : Bool := oper.parameters.any fun p => p.isOut && p.pipe

end Operation

/-! ### The test for the layout -/

/-- Walks on while `q` holds, past the parameters that are not marshalled. -/
def skip (q : ParamNode → Bool) (ps : List ParamNode) : List ParamNode :=
  ps.dropWhile fun p => q p || !p.irep

/-- Only one of the two flags is set on an [in,out] parameter. -/
def csArrDisagree (p : ParamNode) : Bool :=
  p.inOut && (p.firstInNfCsArr != p.firstOutNfCsArr || p.lastInNfCsArr != p.lastOutNfCsArr)

/-- The checks before the order of the parameters is looked at. -/
def layoutExcluded (oper : Operation) : Bool :=
  oper.hasInPipes || oper.hasOutPipes || oper.parameters.any ParamNode.needsStorage ||
    oper.parameters.any ParamNode.needsFree || oper.parameters.any csArrDisagree

/-- What may follow the [in]s and the [in,out]s. -/
def insFirstTail (result : Bool) : List ParamNode → Bool
  | [] => true
  | p :: ps =>
    if p.isOut then (skip ParamNode.outOnly (p :: ps)).isEmpty
    else if !result then (skip ParamNode.inOnly (p :: ps)).isEmpty
    else false

/-- What may follow the [out]s and the [in,out]s. -/
def outsFirstTail (result : Bool) : List ParamNode → Bool
  | [] => true
  | p :: ps =>
    if p.isIn then
      if result then false else (skip ParamNode.inOnly (p :: ps)).isEmpty
    else (skip ParamNode.outOnly (p :: ps)).isEmpty

/-- `DDBE_oper_in_out_opt`. -/
def operInOutOpt (oper : Operation) : Bool :=
  if layoutExcluded oper then false
  -- the [in]s first, then the [out]s first
  else if insFirstTail oper.result.irep
      (skip ParamNode.inOut (skip ParamNode.inOnly oper.parameters)) then true
  else outsFirstTail oper.result.irep
    (skip ParamNode.inOut (skip ParamNode.outOnly oper.parameters))

/-! ### The descriptions -/

/-- The fields of the vector information that a description depends on. -/
structure VecFlags where
  processingIns : Bool := false
  processingOuts : Bool := false
  allocate : Bool := false
  allocateRef : Bool := false
  freeRep : Bool := false
  deriving DecidableEq

/-- Done by the server only, nothing is marshalled. -/
def VecFlags.serverOnly (flags : VecFlags) : Bool :=
  flags.allocate || flags.allocateRef || flags.freeRep

/-- A description in the type vector: the parameter number in front of it and the parameter it was
made for, `none` for the deleted nodes. -/
structure Desc where
  num : ℕ
  param : Option ParamNode
  flags : VecFlags
  deriving DecidableEq

/-- The counts and starts of `DDBE_oper_i_t`. -/
structure OperInfo where
  numParams : ℕ := 0
  numIns : ℕ := 0
  numSrvIns : ℕ := 0
  numOuts : ℕ := 0
  insTypeVec : Option ℕ := none
  outsTypeVec : Option ℕ := none
  deriving DecidableEq

/-- The type vector being made, and the information on the operation. -/
structure Gen where
  vec : List Desc
  info : OperInfo

/-- `DDBE_gen_param_reps`: where the description starts, if there is one. -/
def genParamReps (flags : VecFlags) (num : ℕ) (p : ParamNode) (vec : List Desc) :
    Option ℕ × List Desc :=
  if p.represented num then (some vec.length, vec ++ [⟨num, some p, flags⟩]) else (none, vec)

/-- One of the loops over the parameters: those that `sel` takes are described, and `record` notes
the description. -/
def walk (sel : ParamNode → Bool) (flags : ParamNode → VecFlags)
    (record : ParamNode → Option ℕ → OperInfo → OperInfo) : List ParamNode → ℕ → Gen → Gen
  | [], _, g => g
  | p :: ps, paramNum, g =>
    let paramNum := paramNum + 1
    if sel p then
      let (h, vec) := genParamReps (flags p) paramNum p g.vec
      walk sel flags record ps paramNum ⟨vec, record p h g.info⟩
    else walk sel flags record ps paramNum g

def OperInfo.bumpIns (info : OperInfo) (h : Option ℕ) : OperInfo :=
  { info with numIns := info.numIns + 1, insTypeVec := info.insTypeVec <|> h }

def OperInfo.bumpOuts (info : OperInfo) (h : Option ℕ) : OperInfo :=
  { info with numOuts := info.numOuts + 1, outsTypeVec := info.outsTypeVec <|> h }

/-- All the parameters in order. -/
def walkAll : List ParamNode → ℕ → Gen → Gen :=
  walk (fun _ => true) (fun _ => {}) fun p h info =>
    match h with
    | none => info
    | some _ =>
      -- an [in,out] parameter has one description and counts twice
      let info := if p.isIn then info.bumpIns h else info
      if p.isOut then info.bumpOuts h else info

/-- The [in] non-pipe parameters. -/
def walkIns : List ParamNode → ℕ → Gen → Gen :=
  walk (fun p => p.isIn && !p.pipe) (fun _ => { processingIns := true }) fun _ h info =>
    match h with
    | none => info
    | some _ => info.bumpIns h

/-- The [out]-only objects that the server allocates. -/
def walkStorage (hasInPipes : Bool) : List ParamNode → ℕ → Gen → Gen :=
  walk ParamNode.needsStorage
    (fun p => { processingIns := true, allocate := p.allocate,
                allocateRef := !p.allocate && p.allocateRef })
    fun _ h info =>
      { info with
        insTypeVec := info.insTypeVec <|> h
        numSrvIns := info.numSrvIns + 1
        numIns := if hasInPipes then info.numIns + 1 else info.numIns }

/-- The [in] pipes. -/
def walkInPipes : List ParamNode → ℕ → Gen → Gen :=
  walk (fun p => p.isIn && p.pipe) (fun _ => { processingIns := true }) fun _ h info =>
    { info.bumpIns h with numSrvIns := info.numSrvIns + 1 }

/-- The [out] pipes. -/
def walkOutPipes : List ParamNode → ℕ → Gen → Gen :=
  walk (fun p => p.isOut && p.pipe) (fun _ => { processingOuts := true }) fun _ h info =>
    info.bumpOuts h

/-- The [out] non-pipe parameters. -/
def walkOuts : List ParamNode → ℕ → Gen → Gen :=
  walk (fun p => p.isOut && !p.pipe) (fun _ => { processingOuts := true }) fun _ h info =>
    match h with
    | none => info
    | some _ => info.bumpOuts h

/-- The [in]-only objects that the server frees. -/
def walkFree : List ParamNode → ℕ → Gen → Gen :=
  walk ParamNode.needsFree (fun _ => { processingOuts := true, freeRep := true }) fun _ h info =>
    match h with
    | none => info
    | some _ => info.bumpOuts h

/-- Every parameter once. -/
def genOnce (oper : Operation) (vec : List Desc) : Gen :=
  let g := walkAll oper.parameters 0 ⟨vec, {}⟩
  { g with info := { g.info with numSrvIns := g.info.numIns } }

/-- The [in]s, then the [out]s. -/
def genTwice (oper : Operation) (vec : List Desc) : Gen :=
  let g := walkIns oper.parameters 0 ⟨vec, {}⟩
  let g := { g with info := { g.info with numSrvIns := g.info.numIns } }
  let g := walkStorage oper.hasInPipes oper.parameters 0 g
  let g := if oper.hasInPipes then walkInPipes oper.parameters 0 g else g
  let g := if oper.hasOutPipes then walkOutPipes oper.parameters 0 g else g
  walkFree oper.parameters 0 (walkOuts oper.parameters 0 g)

/-- The function result, with parameter number 0. -/
def genResult (oper : Operation) (flags : VecFlags) (g : Gen) : Gen :=
  let info := { g.info with numParams := oper.parameters.length + 1 }
  let (h, vec) := genParamReps flags 0 oper.result g.vec
  match h with
  | none => ⟨vec, info⟩
  | some _ => ⟨vec, info.bumpOuts h⟩

/-- The entry for the deleted nodes. -/
def genDeletions (oper : Operation) (flags : VecFlags) (g : Gen) : Gen :=
  if oper.reflectDeletions then
    ⟨g.vec ++ [⟨0, none, flags⟩], g.info.bumpOuts (some g.vec.length)⟩
  else g

/-- `DDBE_gen_vector_reps` for one operation. -/
def genOper (oper : Operation) (vec : List Desc) : Gen :=
  if operInOutOpt oper then
    genDeletions oper {} (genResult oper {} (genOnce oper vec))
  else
    genDeletions oper { processingOuts := true }
      (genResult oper { processingOuts := true } (genTwice oper vec))

/-- `DDBE_gen_vector_reps`: the type vector for the operations of an interface. -/
def genVectorReps (opers : List Operation) : List Desc :=
  opers.foldl (fun vec oper => (genOper oper vec).vec) []

/-! ### What the runs should be -/

/-- What a description tells: the number, the parameter and whether it is for the server only. -/
def Desc.label (d : Desc) : ℕ × Option ParamNode × Bool := (d.num, d.param, d.flags.serverOnly)

namespace Operation

/-- The parameters with their numbers that satisfy `q` and have a description. -/
def numbered (oper : Operation) (q : ParamNode → Bool) : List (ParamNode × ℕ) :=
  (oper.parameters.zipIdx 1).filter fun x => q x.1 && x.1.represented x.2

/-- Their labels. -/
def labels (oper : Operation) (q : ParamNode → Bool) (serverOnly : Bool) :
    List (ℕ × Option ParamNode × Bool) :=
  (oper.numbered q).map fun x => (x.2, some x.1, serverOnly)

def resultLabels (oper : Operation) : List (ℕ × Option ParamNode × Bool) :=
  if oper.result.represented 0 then [(0, some oper.result, false)] else []

def deletionLabels (oper : Operation) : List (ℕ × Option ParamNode × Bool) :=
  if oper.reflectDeletions then [(0, none, false)] else []

end Operation

/-- The recorded runs of the type vector are the parameters of the operation, each once under its
own number: the [in]s, on the server with those it allocates (which are counted on both sides when
pipes come after them), and the [out]s with those it frees, the result and the deleted nodes. -/
structure RunsExact (oper : Operation) (info : OperInfo) (vec : List Desc) : Prop where
  ins : ((stretch info.insTypeVec info.numIns vec).map Desc.label).Perm
    (oper.labels ParamNode.isIn false ++
      if oper.hasInPipes then oper.labels ParamNode.needsStorage true else [])
  srvIns : ((stretch info.insTypeVec info.numSrvIns vec).map Desc.label).Perm
    (oper.labels ParamNode.isIn false ++ oper.labels ParamNode.needsStorage true)
  outs : ∃ body, (stretch info.outsTypeVec info.numOuts vec).map Desc.label =
      body ++ oper.resultLabels ++ oper.deletionLabels ∧
    body.Perm (oper.labels ParamNode.isOut false ++ oper.labels ParamNode.needsFree true)

/-- The deleted nodes are cut off from the [out] parameters: the parameters are laid out once, for
their order is the [in]s or the [out]s, the [in,out]s and then [in]s, without a function result;
and one of the [out]s comes before one that is [in] only. -/
def Parted (oper : Operation) : Prop :=
  oper.reflectDeletions = true ∧ oper.result.irep = false ∧ layoutExcluded oper = false ∧
  (∃ first both last, oper.parameters.filter ParamNode.irep = first ++ both ++ last ∧
    ((∀ p ∈ first, p.inOnly) ∨ ∀ p ∈ first, p.outOnly) ∧ (∀ p ∈ both, p.inOut) ∧
    ∀ p ∈ last, p.inOnly) ∧
  ∃ before p after, oper.numbered (fun _ => true) = before ++ p :: after ∧
    (∃ p' ∈ before, p'.1.isOut) ∧ p.1.inOnly

/-! ### The order of the parameters -/

section Order

variable {q : ParamNode → Bool} {ps : List ParamNode}

/-- Walking past the parameters that are not marshalled is walking along the others. -/
theorem skip_filter (q : ParamNode → Bool) (ps : List ParamNode) :
    (skip q ps).filter ParamNode.irep = (ps.filter ParamNode.irep).dropWhile q := by
  induction ps with
  | nil => rfl
  | cons p ps ih =>
    by_cases hirep : p.irep = true
    · by_cases hq : q p = true
      · simpa [skip, hirep, hq] using ih
      · simp [skip, hirep, hq]
    · simpa [skip, hirep] using ih

theorem irep_of_skip {p : ParamNode} {rest : List ParamNode} (h : skip q ps = p :: rest) :
    p.irep = true ∧ q p = false := by
  have hne : skip q ps ≠ [] := by simp [h]
  have hhead := List.head_dropWhile_not (fun p => q p || !p.irep) hne
  have hp : (List.dropWhile (fun p => q p || !p.irep) ps).head hne = p := by
    have : (skip q ps).head hne = p := by simp [h]
    exact this
  rw [hp] at hhead
  simpa [and_comm] using hhead

theorem skip_isEmpty (q : ParamNode → Bool) (ps : List ParamNode) :
    (skip q ps).isEmpty = true ↔ ∀ p ∈ ps.filter ParamNode.irep, q p = true := by
  rw [List.isEmpty_iff, skip, List.dropWhile_eq_nil_iff]
  constructor
  · intro h p hp
    obtain ⟨hmem, hirep⟩ := List.mem_filter.mp hp
    simpa [hirep] using h p hmem
  · intro h p hp
    by_cases hirep : p.irep = true
    · simp [h p (List.mem_filter.mpr ⟨hp, hirep⟩)]
    · simp [hirep]

/-- The two tails that may follow, when the rest does not begin with an [in,out] parameter. -/
theorem insFirstTail_iff (result : Bool) {rest : List ParamNode} (h : skip ParamNode.inOut ps = rest) :
    insFirstTail result rest = true ↔ (∀ p ∈ rest.filter ParamNode.irep, p.outOnly) ∨
      (result = false ∧ ∀ p ∈ rest.filter ParamNode.irep, p.inOnly) := by
  rcases rest with _ | ⟨p, rest⟩
  · simp [insFirstTail]
  · obtain ⟨hirep, hnot⟩ := irep_of_skip h
    have hmem : p ∈ (p :: rest).filter ParamNode.irep := List.mem_filter.mpr ⟨by simp, hirep⟩
    rw [insFirstTail]
    split_ifs with hout hres
    · rw [skip_isEmpty]
      have hin : ¬ p.inOnly = true := by simp [ParamNode.inOnly, hout]
      exact ⟨Or.inl, fun h => h.resolve_right fun h' => hin (h'.2 p hmem)⟩
    · rw [skip_isEmpty]
      have hout' : ¬ p.outOnly = true := by simp [ParamNode.outOnly, hout]
      have hres' : result = false := by simpa using hres
      exact ⟨fun h => Or.inr ⟨hres', h⟩, fun h => (h.resolve_left fun h' => hout' (h' p hmem)).2⟩
    · have hout' : ¬ p.outOnly = true := by simp [ParamNode.outOnly, hout]
      simp only [false_iff, not_or, not_and]
      exact ⟨fun h => hout' (h p hmem), fun hr => absurd hr (by simpa using hres)⟩

theorem outsFirstTail_iff (result : Bool) {rest : List ParamNode} (h : skip ParamNode.inOut ps = rest) :
    outsFirstTail result rest = true ↔ (∀ p ∈ rest.filter ParamNode.irep, p.outOnly) ∨
      (result = false ∧ ∀ p ∈ rest.filter ParamNode.irep, p.inOnly) := by
  rcases rest with _ | ⟨p, rest⟩
  · simp [outsFirstTail]
  · obtain ⟨hirep, hnot⟩ := irep_of_skip h
    have hmem : p ∈ (p :: rest).filter ParamNode.irep := List.mem_filter.mpr ⟨by simp, hirep⟩
    rw [outsFirstTail]
    split_ifs with hin hres
    · have hout' : ¬ p.outOnly = true := by simp [ParamNode.outOnly, hin]
      simp only [false_iff, not_or, not_and]
      exact ⟨fun h => hout' (h p hmem), fun hr => absurd hr (by simp [hres])⟩
    · rw [skip_isEmpty]
      have hout' : ¬ p.outOnly = true := by simp [ParamNode.outOnly, hin]
      have hres' : result = false := by simpa using hres
      exact ⟨fun h => Or.inr ⟨hres', h⟩, fun h => (h.resolve_left fun h' => hout' (h' p hmem)).2⟩
    · rw [skip_isEmpty]
      have hin' : ¬ p.inOnly = true := by simp [ParamNode.inOnly, hin]
      exact ⟨Or.inl, fun h => h.resolve_right fun h' => hin' (h'.2 p hmem)⟩

/-- What the two walks leave of a list of three stretches is in the third. -/
theorem dropWhile_dropWhile_subset {a b : ParamNode → Bool} {first both last : List ParamNode}
    (hfirst : ∀ p ∈ first, a p = true) (hboth : ∀ p ∈ both, b p = true)
    (hab : ∀ p, b p = true → a p = false) :
    ((first ++ both ++ last).dropWhile a).dropWhile b ⊆ last := by
  rw [List.append_assoc, List.dropWhile_append_of_pos hfirst]
  rcases both with _ | ⟨p, both⟩
  · exact fun x hx => (List.dropWhile_sublist a).subset ((List.dropWhile_sublist b).subset hx)
  · have hp : a p = false := hab p (hboth p (by simp))
    rw [List.cons_append, List.dropWhile_cons_of_neg (by simp [hp]), ← List.cons_append,
      List.dropWhile_append_of_pos hboth]
    exact (List.dropWhile_sublist b).subset

/-- The list as the walks divide it. -/
theorem walks_divide (a b : ParamNode → Bool) (l : List ParamNode) :
    ∃ first both, l = first ++ both ++ (l.dropWhile a).dropWhile b ∧
      (∀ p ∈ first, a p = true) ∧ ∀ p ∈ both, b p = true :=
  ⟨l.takeWhile a, (l.dropWhile a).takeWhile b,
    by rw [List.append_assoc, List.takeWhile_append_dropWhile, List.takeWhile_append_dropWhile],
    fun p hp => List.mem_takeWhile_imp hp, fun p hp => List.mem_takeWhile_imp hp⟩

/-- The orders with contiguous [in]s and contiguous [out]s. -/
def Ordered (result : Bool) (l : List ParamNode) : Prop :=
  ∃ first both last, l = first ++ both ++ last ∧
    ((∀ p ∈ first, p.inOnly) ∨ ∀ p ∈ first, p.outOnly) ∧ (∀ p ∈ both, p.inOut) ∧
    ((∀ p ∈ last, p.outOnly) ∨ (result = false ∧ ∀ p ∈ last, p.inOnly))

theorem ordered_iff (result : Bool) (l : List ParamNode) : Ordered result l ↔
    (∃ a, (a = ParamNode.inOnly ∨ a = ParamNode.outOnly) ∧
      ((∀ p ∈ (l.dropWhile a).dropWhile ParamNode.inOut, p.outOnly) ∨
        (result = false ∧ ∀ p ∈ (l.dropWhile a).dropWhile ParamNode.inOut, p.inOnly))) := by
  constructor
  · rintro ⟨first, both, last, rfl, hfirst, hboth, hlast⟩
    obtain ⟨a, ha, hfirst⟩ : ∃ a, (a = ParamNode.inOnly ∨ a = ParamNode.outOnly) ∧
        ∀ p ∈ first, a p = true := by
      rcases hfirst with hfirst | hfirst
      · exact ⟨_, Or.inl rfl, hfirst⟩
      · exact ⟨_, Or.inr rfl, hfirst⟩
    have hab : ∀ p, ParamNode.inOut p = true → a p = false := by
      intro p hp
      simp only [ParamNode.inOut, Bool.and_eq_true] at hp
      rcases ha with rfl | rfl <;> simp [ParamNode.inOnly, ParamNode.outOnly, hp]
    have hsub : ((first ++ both ++ last).dropWhile a).dropWhile ParamNode.inOut ⊆ last :=
      dropWhile_dropWhile_subset hfirst hboth hab
    refine ⟨a, ha, ?_⟩
    rcases hlast with hlast | ⟨hres, hlast⟩
    · exact Or.inl fun p hp => hlast p (hsub hp)
    · exact Or.inr ⟨hres, fun p hp => hlast p (hsub hp)⟩
  · rintro ⟨a, ha, hlast⟩
    obtain ⟨first, both, hl, hfirst, hboth⟩ := walks_divide a ParamNode.inOut l
    refine ⟨first, both, _, hl, ?_, hboth, hlast⟩
    rcases ha with rfl | rfl
    · exact Or.inl hfirst
    · exact Or.inr hfirst

/-- The test accepts the contiguous orders. -/
theorem operInOutOpt_iff (oper : Operation) : operInOutOpt oper = true ↔
    layoutExcluded oper = false ∧
      Ordered oper.result.irep (oper.parameters.filter ParamNode.irep) := by
  have hins := insFirstTail_iff oper.result.irep
    (rfl : skip ParamNode.inOut (skip ParamNode.inOnly oper.parameters) = _)
  have houts := outsFirstTail_iff oper.result.irep
    (rfl : skip ParamNode.inOut (skip ParamNode.outOnly oper.parameters) = _)
  rw [skip_filter, skip_filter] at hins houts
  rw [operInOutOpt, ordered_iff]
  by_cases hexcl : layoutExcluded oper = true
  · simp [hexcl]
  · simp only [hexcl, Bool.false_eq_true, ↓reduceIte, Bool.if_true_left, Bool.or_eq_true,
      decide_eq_true_eq, true_and, hins, houts, or_and_right, exists_or, exists_eq_left]

end Order

/-! ### The loops -/

section Loops

variable {sel : ParamNode → Bool} {flags : ParamNode → VecFlags}
  {record : ParamNode → Option ℕ → OperInfo → OperInfo} {ps : List ParamNode}

/-- The descriptions of a loop whose first parameter has the number `n`. -/
def block (sel : ParamNode → Bool) (flags : ParamNode → VecFlags) (ps : List ParamNode) (n : ℕ) :
    List Desc :=
  ((ps.zipIdx n).filter fun x => sel x.1 && x.1.represented x.2).map
    fun x => ⟨x.2, some x.1, flags x.1⟩

theorem block_cons (p : ParamNode) (n : ℕ) : block sel flags (p :: ps) n =
    (if sel p && p.represented n then [⟨n, some p, flags p⟩] else []) ++
      block sel flags ps (n + 1) := by
  simp only [block, List.zipIdx_cons, List.filter_cons]
  split_ifs <;> simp

theorem block_eq_nil (h : ∀ p ∈ ps, sel p = false) (n : ℕ) : block sel flags ps n = [] := by
  rw [block, List.map_eq_nil_iff, List.filter_eq_nil_iff]
  intro x hx
  simp [h x.1 (List.fst_mem_of_mem_zipIdx hx)]

/-- What a loop counts: the [in]s, the server's [in]s, the [out]s. -/
structure Counted where
  ins : Bool := false
  srvIns : Bool := false
  outs : Bool := false
  markIns : Bool := false
  markOuts : Bool := false

/-- The information after `blk` was put at `base`. -/
def Counted.after (c : Counted) (base : ℕ) (blk : List Desc) (info : OperInfo) : OperInfo :=
  { info with
    numIns := info.numIns + c.ins.toNat * blk.length
    numSrvIns := info.numSrvIns + c.srvIns.toNat * blk.length
    numOuts := info.numOuts + c.outs.toNat * blk.length
    insTypeVec := if c.markIns then info.insTypeVec <|> startAt base blk else info.insTypeVec
    outsTypeVec := if c.markOuts then info.outsTypeVec <|> startAt base blk else info.outsTypeVec }

@[simp] theorem Counted.after_nil (c : Counted) (base : ℕ) (info : OperInfo) :
    c.after base [] info = info := by
  simp [Counted.after]

theorem Counted.after_cons (c : Counted) (base : ℕ) (d : Desc) (blk : List Desc)
    (info : OperInfo) :
    c.after (base + 1) blk (c.after base [d] info) = c.after base (d :: blk) info := by
  have hcount : ∀ a b : ℕ, a + b * 1 + b * blk.length = a + b * (blk.length + 1) := by
    intro a b
    rw [Nat.mul_add, Nat.add_assoc, Nat.add_comm (b * 1)]
  have hmark : ∀ o : Option ℕ, ((o <|> some base) <|> startAt (base + 1) blk) = (o <|> some base) := by
    intro o
    cases o <;> rfl
  simp only [Counted.after, List.length_cons, List.length_nil, Nat.zero_add, hcount, startAt_cons]
  congr 1
  · split_ifs
    · exact hmark _
    · rfl
  · split_ifs
    · exact hmark _
    · rfl

/-- A loop puts the descriptions behind those there are and counts them. -/
theorem walk_eq (c : Counted)
    (hsome : ∀ p h info, sel p = true →
      record p (some h) info = c.after h [⟨0, none, {}⟩] info)
    (hnone : ∀ p num info, p ∈ ps → sel p = true → p.represented num = false →
      record p none info = info) (n : ℕ) (g : Gen) :
    walk sel flags record ps n g =
      ⟨g.vec ++ block sel flags ps (n + 1),
        c.after g.vec.length (block sel flags ps (n + 1)) g.info⟩ := by
  -- the number of the next parameter and the length of the vector grow together
  induction ps generalizing n g with
  | nil => simp [walk, block]
  | cons p ps ih =>
    have ih := ih fun q num info hq => hnone q num info (List.mem_cons_of_mem p hq)
    by_cases hsel : sel p = true
    · by_cases hrep : p.represented (n + 1) = true
      · have hbump := hsome p g.vec.length g.info hsel
        have hone : c.after g.vec.length [⟨0, none, {}⟩] g.info =
            c.after g.vec.length [⟨n + 1, some p, flags p⟩] g.info := rfl
        simp only [walk, hsel, ↓reduceIte, genParamReps, hrep, block_cons, Bool.and_self, ih,
          hbump, hone, List.length_append, List.length_singleton, List.append_assoc,
          Counted.after_cons, List.singleton_append]
      · have hrep' : p.represented (n + 1) = false := by simpa using hrep
        simp only [walk, hsel, ↓reduceIte, genParamReps, hrep', Bool.false_eq_true, block_cons,
          Bool.and_false, List.nil_append, ih, hnone p (n + 1) g.info (by simp) hsel hrep']
    · have hsel' : sel p = false := by simpa using hsel
      simp only [walk, hsel', Bool.false_eq_true, ↓reduceIte, block_cons, Bool.false_and,
        List.nil_append, ih]

end Loops

section Labels

variable {sel : ParamNode → Bool} {flags : ParamNode → VecFlags}

theorem map_label_block (oper : Operation) (b : Bool)
    (hflags : ∀ p, sel p = true → (flags p).serverOnly = b) :
    (block sel flags oper.parameters 1).map Desc.label = oper.labels sel b := by
  rw [block, Operation.labels, Operation.numbered, List.map_map]
  refine List.map_congr_left fun x hx => ?_
  have hsel : sel x.1 = true := by
    have := (List.mem_filter.mp hx).2
    simp only [Bool.and_eq_true] at this
    exact this.1
  simp [Desc.label, hflags x.1 hsel]

/-- The parameters that are pipes and those that are not, together. -/
theorem labels_pipes (oper : Operation) (q : ParamNode → Bool) (b : Bool) :
    (oper.labels (fun p => q p && !p.pipe) b ++ oper.labels (fun p => q p && p.pipe) b).Perm
      (oper.labels q b) := by
  have hsplit : ∀ r : ParamNode → Bool, oper.numbered (fun p => q p && r p) =
      (oper.numbered q).filter fun x => r x.1 := by
    intro r
    rw [Operation.numbered, Operation.numbered, List.filter_filter]
    refine List.filter_congr fun x _ => ?_
    rw [Bool.and_comm (q x.1), Bool.and_assoc]
  simp only [Operation.labels, ← List.map_append]
  refine List.Perm.map _ ?_
  rw [hsplit, hsplit]
  exact (List.perm_append_comm).trans (List.filter_append_perm (fun x : ParamNode × ℕ => x.1.pipe) _)

theorem labels_eq_nil {oper : Operation} {q : ParamNode → Bool} {b : Bool}
    (h : ∀ p ∈ oper.parameters, q p = false) : oper.labels q b = [] := by
  rw [Operation.labels, List.map_eq_nil_iff, Operation.numbered, List.filter_eq_nil_iff]
  intro x hx
  simp [h x.1 (List.fst_mem_of_mem_zipIdx hx)]

end Labels

/-! ### The result and the deleted nodes -/

def resultBlock (oper : Operation) (flags : VecFlags) : List Desc :=
  if oper.result.represented 0 then [⟨0, some oper.result, flags⟩] else []

def deletionBlock (oper : Operation) (flags : VecFlags) : List Desc :=
  if oper.reflectDeletions then [⟨0, none, flags⟩] else []

/-- What is put behind the parameters. -/
def tailBlock (oper : Operation) (flags : VecFlags) : List Desc :=
  resultBlock oper flags ++ deletionBlock oper flags

theorem num_of_mem_tailBlock {oper : Operation} {flags : VecFlags} {d : Desc}
    (h : d ∈ tailBlock oper flags) : d.num = 0 := by
  rw [tailBlock, resultBlock, deletionBlock, List.mem_append] at h
  rcases h with h | h <;> split_ifs at h <;> simp_all

theorem map_label_tailBlock (oper : Operation) {flags : VecFlags}
    (hflags : flags.serverOnly = false) :
    (tailBlock oper flags).map Desc.label = oper.resultLabels ++ oper.deletionLabels := by
  rw [tailBlock, List.map_append, resultBlock, deletionBlock, Operation.resultLabels,
    Operation.deletionLabels]
  congr 1
  · split_ifs <;> simp [Desc.label, hflags]
  · split_ifs <;> simp [Desc.label, hflags]

/-- The end of an operation adds to the [out]s only. -/
theorem genDeletions_genResult (oper : Operation) (flags : VecFlags) (g : Gen) :
    let g' := genDeletions oper flags (genResult oper flags g)
    g'.vec = g.vec ++ tailBlock oper flags ∧ g'.info.numIns = g.info.numIns ∧
      g'.info.numSrvIns = g.info.numSrvIns ∧ g'.info.insTypeVec = g.info.insTypeVec ∧
      g'.info.numOuts = g.info.numOuts + (tailBlock oper flags).length ∧
      g'.info.outsTypeVec =
        (g.info.outsTypeVec <|> startAt g.vec.length (tailBlock oper flags)) := by
  rcases hres : oper.result.represented 0 <;> rcases hdel : oper.reflectDeletions <;>
    rcases hout : g.info.outsTypeVec <;>
    simp [genDeletions, genResult, genParamReps, tailBlock, resultBlock, deletionBlock, hres, hdel,
      hout, OperInfo.bumpOuts]

/-! ### Every parameter once -/

section Once

/-- The description counts as one of the [in]s. -/
def Desc.countsIn (d : Desc) : Bool := d.param.any ParamNode.isIn

/-- The description counts as one of the [out]s; what has number 0 comes after the parameters. -/
def Desc.countsOut (d : Desc) : Bool := d.num == 0 || d.param.any ParamNode.isOut

/-- Where the first description that `q` takes was put, behind what `o` remembers. -/
theorem mark_cons (q : Desc → Bool) (o : Option ℕ) (base : ℕ) (d : Desc) (blk : List Desc) :
    (o <|> ((d :: blk).findIdx? q).map (base + ·)) =
      ((if q d then o <|> some base else o) <|> (blk.findIdx? q).map (base + 1 + ·)) := by
  rw [List.findIdx?_cons]
  by_cases hq : q d = true
  · rcases o <;> simp [hq]
  · rcases h : blk.findIdx? q with _ | i
    · simp [hq]
    · have : base + (i + 1) = base + 1 + i := by omega
      simp [hq, this]

/-- The one walk puts every description and counts it on its sides. -/
theorem walkAll_eq (ps : List ParamNode) (n : ℕ) (g : Gen) :
    let blk := block (fun _ => true) (fun _ => {}) ps (n + 1)
    let g' := walkAll ps n g
    g'.vec = g.vec ++ blk ∧ g'.info.numIns = g.info.numIns + blk.countP Desc.countsIn ∧
      g'.info.numOuts = g.info.numOuts + blk.countP Desc.countsOut ∧
      g'.info.insTypeVec =
        (g.info.insTypeVec <|> (blk.findIdx? Desc.countsIn).map (g.vec.length + ·)) ∧
      g'.info.outsTypeVec =
        (g.info.outsTypeVec <|> (blk.findIdx? Desc.countsOut).map (g.vec.length + ·)) := by
  induction ps generalizing n g with
  | nil =>
    simp [walkAll, walk, block]
  | cons p ps ih =>
    by_cases hrep : p.represented (n + 1) = true
    · -- the description is put and counted, then the walk goes on behind it
      have hstep : ∃ info', walkAll (p :: ps) n g =
          walkAll ps (n + 1) ⟨g.vec ++ [⟨n + 1, some p, {}⟩], info'⟩ ∧
          info'.numIns = g.info.numIns + (if p.isIn then 1 else 0) ∧
          info'.numOuts = g.info.numOuts + (if p.isOut then 1 else 0) ∧
          info'.insTypeVec =
            (if p.isIn then g.info.insTypeVec <|> some g.vec.length else g.info.insTypeVec) ∧
          info'.outsTypeVec =
            (if p.isOut then g.info.outsTypeVec <|> some g.vec.length
              else g.info.outsTypeVec) := by
        let info := if p.isIn then g.info.bumpIns (some g.vec.length) else g.info
        refine ⟨if p.isOut then info.bumpOuts (some g.vec.length) else info, ?_, ?_⟩
        · simp only [walkAll, walk, ↓reduceIte, genParamReps, hrep]
          rfl
        · rcases hin : p.isIn <;> rcases p.isOut <;>
            simp [info, hin, OperInfo.bumpIns, OperInfo.bumpOuts]
      obtain ⟨info', hwalk, hins, houts, hmi, hmo⟩ := hstep
      have hci : (⟨n + 1, some p, {}⟩ : Desc).countsIn = p.isIn := rfl
      have hco : (⟨n + 1, some p, {}⟩ : Desc).countsOut = p.isOut := by
        simp [Desc.countsOut]
      have hblk : block (fun _ => true) (fun _ => {}) (p :: ps) (n + 1) =
          (⟨n + 1, some p, {}⟩ : Desc) :: block (fun _ => true) (fun _ => {}) ps (n + 1 + 1) := by
        simp [block_cons, hrep]
      obtain ⟨h₁, h₂, h₃, h₄, h₅⟩ := ih (n + 1) ⟨g.vec ++ [⟨n + 1, some p, {}⟩], info'⟩
      rw [List.length_append, List.length_singleton] at h₄ h₅
      simp only [hwalk, hblk, h₁, h₂, h₃, h₄, h₅, hins, houts, hmi, hmo, List.countP_cons, hci, hco,
        mark_cons, List.append_assoc, List.singleton_append, true_and, and_true]
      exact ⟨by omega, by omega⟩
    · have hrep' : p.represented (n + 1) = false := by simpa using hrep
      have hwalk : walkAll (p :: ps) n g = walkAll ps (n + 1) g := by
        simp [walkAll, walk, genParamReps, hrep']
      have hblk : block (fun _ => true) (fun _ => {}) (p :: ps) (n + 1) =
          block (fun _ => true) (fun _ => {}) ps (n + 1 + 1) := by
        simp [block_cons, hrep']
      rw [hwalk, hblk]
      exact ih (n + 1) g

/-- The descriptions when every parameter is laid out once. -/
def onceBlock (oper : Operation) : List Desc :=
  block (fun _ => true) (fun _ => {}) oper.parameters 1

theorem findIdx?_tail {q : Desc → Bool} {l : List Desc} (h : ∀ d ∈ l, q d = true) (base : ℕ) :
    startAt base l = (l.findIdx? q).map (base + ·) := by
  cases l with
  | nil => rfl
  | cons d l => simp [List.findIdx?_cons, h d (by simp)]

/-- The layout with every parameter once. -/
theorem genOper_once {oper : Operation} (hopt : operInOutOpt oper = true) (vec : List Desc) :
    let blk := onceBlock oper ++ tailBlock oper {}
    let g := genOper oper vec
    g.vec = vec ++ blk ∧ g.info.numIns = (onceBlock oper).countP Desc.countsIn ∧
      g.info.numSrvIns = (onceBlock oper).countP Desc.countsIn ∧
      g.info.insTypeVec = ((onceBlock oper).findIdx? Desc.countsIn).map (vec.length + ·) ∧
      g.info.numOuts = blk.countP Desc.countsOut ∧
      g.info.outsTypeVec = (blk.findIdx? Desc.countsOut).map (vec.length + ·) := by
  obtain ⟨hvec, hins, houts, hmi, hmo⟩ := walkAll_eq oper.parameters 0 ⟨vec, {}⟩
  obtain ⟨h₁, h₂, h₃, h₄, h₅, h₆⟩ := genDeletions_genResult oper {} (genOnce oper vec)
  have htail : ∀ d ∈ tailBlock oper {}, d.countsOut = true := by
    intro d hd
    simp [Desc.countsOut, num_of_mem_tailBlock hd]
  have hgen : genOper oper vec = genDeletions oper {} (genResult oper {} (genOnce oper vec)) := by
    simp [genOper, hopt]
  have hnone : ∀ o : Option ℕ, (none <|> o) = o := fun o => rfl
  rw [hgen]
  simp only [Nat.zero_add, hnone] at hvec hins houts hmi hmo
  refine ⟨?_, ?_, ?_, ?_, ?_, ?_⟩
  · rw [h₁]
    simp only [genOnce, hvec, List.append_assoc, onceBlock]
  · rw [h₂]
    exact hins
  · rw [h₃]
    exact hins
  · rw [h₄]
    exact hmi
  · rw [h₅, List.countP_append, List.countP_eq_length.mpr htail]
    simp only [genOnce, houts, onceBlock]
  · rw [h₆, findIdx?_tail htail, List.findIdx?_append]
    simp only [genOnce, hmo, hvec, onceBlock, List.length_append]
    rcases (block (fun _ => true) (fun _ => {}) oper.parameters 1).findIdx? Desc.countsOut
    · rcases (tailBlock oper {}).findIdx? Desc.countsOut
      · simp
      · simp only [Option.map_none, hnone, Option.map_some, Option.none_or]
        congr 1
        omega
    · simp

end Once

/-! ### The [in]s, then the [out]s -/

section Twice

def inBlock (oper : Operation) : List Desc :=
  block (fun p => p.isIn && !p.pipe) (fun _ => { processingIns := true }) oper.parameters 1

def storageBlock (oper : Operation) : List Desc :=
  block ParamNode.needsStorage
    (fun p => { processingIns := true, allocate := p.allocate,
                allocateRef := !p.allocate && p.allocateRef }) oper.parameters 1

def inPipeBlock (oper : Operation) : List Desc :=
  block (fun p => p.isIn && p.pipe) (fun _ => { processingIns := true }) oper.parameters 1

def outPipeBlock (oper : Operation) : List Desc :=
  block (fun p => p.isOut && p.pipe) (fun _ => { processingOuts := true }) oper.parameters 1

def outBlock (oper : Operation) : List Desc :=
  block (fun p => p.isOut && !p.pipe) (fun _ => { processingOuts := true }) oper.parameters 1

def freeBlock (oper : Operation) : List Desc :=
  block ParamNode.needsFree (fun _ => { processingOuts := true, freeRep := true })
    oper.parameters 1

theorem described_pipe {oper : Operation} {p : ParamNode} (hp : p ∈ oper.parameters)
    (h : p.pipe = true) (num : ℕ) : p.represented num = true :=
  oper.described p hp (by simp [h]) num

theorem described_storage {oper : Operation} {p : ParamNode} (hp : p ∈ oper.parameters)
    (h : p.needsStorage = true) (num : ℕ) : p.represented num = true :=
  oper.described p hp (by simp [h]) num

theorem walkIns_eq (oper : Operation) (g : Gen) : walkIns oper.parameters 0 g =
    ⟨g.vec ++ inBlock oper,
      ({ ins := true, markIns := true } : Counted).after g.vec.length (inBlock oper) g.info⟩ := by
  refine walk_eq _ ?_ (fun _ _ _ _ _ _ => rfl) 0 g
  intro p h info _
  simp [Counted.after, OperInfo.bumpIns]

theorem walkStorage_eq (oper : Operation) (b : Bool) (g : Gen) :
    walkStorage b oper.parameters 0 g =
    ⟨g.vec ++ storageBlock oper,
      ({ ins := b, srvIns := true, markIns := true } : Counted).after g.vec.length
        (storageBlock oper) g.info⟩ := by
  refine walk_eq _ ?_ ?_ 0 g
  · intro p h info _
    rcases b <;> simp [Counted.after]
  · intro p num info hp hsel hrep
    rw [described_storage hp hsel num] at hrep
    cases hrep

theorem walkInPipes_eq (oper : Operation) (g : Gen) : walkInPipes oper.parameters 0 g =
    ⟨g.vec ++ inPipeBlock oper,
      ({ ins := true, srvIns := true, markIns := true } : Counted).after g.vec.length
        (inPipeBlock oper) g.info⟩ := by
  refine walk_eq _ ?_ ?_ 0 g
  · intro p h info _
    simp [Counted.after, OperInfo.bumpIns]
  · intro p num info hp hsel hrep
    simp only [Bool.and_eq_true] at hsel
    rw [described_pipe hp hsel.2 num] at hrep
    cases hrep

theorem walkOutPipes_eq (oper : Operation) (g : Gen) : walkOutPipes oper.parameters 0 g =
    ⟨g.vec ++ outPipeBlock oper,
      ({ outs := true, markOuts := true } : Counted).after g.vec.length
        (outPipeBlock oper) g.info⟩ := by
  refine walk_eq _ ?_ ?_ 0 g
  · intro p h info _
    simp [Counted.after, OperInfo.bumpOuts]
  · intro p num info hp hsel hrep
    simp only [Bool.and_eq_true] at hsel
    rw [described_pipe hp hsel.2 num] at hrep
    cases hrep

theorem walkOuts_eq (oper : Operation) (g : Gen) : walkOuts oper.parameters 0 g =
    ⟨g.vec ++ outBlock oper,
      ({ outs := true, markOuts := true } : Counted).after g.vec.length (outBlock oper) g.info⟩ := by
  refine walk_eq _ ?_ (fun _ _ _ _ _ _ => rfl) 0 g
  intro p h info _
  simp [Counted.after, OperInfo.bumpOuts]

theorem walkFree_eq (oper : Operation) (g : Gen) : walkFree oper.parameters 0 g =
    ⟨g.vec ++ freeBlock oper,
      ({ outs := true, markOuts := true } : Counted).after g.vec.length (freeBlock oper) g.info⟩ := by
  refine walk_eq _ ?_ (fun _ _ _ _ _ _ => rfl) 0 g
  intro p h info _
  simp [Counted.after, OperInfo.bumpOuts]

theorem inPipeBlock_eq_nil {oper : Operation} (h : oper.hasInPipes = false) :
    inPipeBlock oper = [] :=
  block_eq_nil (fun p hp => by simpa using List.any_eq_false.mp h p hp) 1

theorem outPipeBlock_eq_nil {oper : Operation} (h : oper.hasOutPipes = false) :
    outPipeBlock oper = [] :=
  block_eq_nil (fun p hp => by simpa using List.any_eq_false.mp h p hp) 1

/-- Without pipes the loops over the pipes would do nothing. -/
theorem walkInPipes_cond (oper : Operation) (g : Gen) :
    (if oper.hasInPipes then walkInPipes oper.parameters 0 g else g) =
      walkInPipes oper.parameters 0 g := by
  split_ifs with h
  · rfl
  · rw [walkInPipes_eq, inPipeBlock_eq_nil (by simpa using h)]
    simp

theorem walkOutPipes_cond (oper : Operation) (g : Gen) :
    (if oper.hasOutPipes then walkOutPipes oper.parameters 0 g else g) =
      walkOutPipes oper.parameters 0 g := by
  split_ifs with h
  · rfl
  · rw [walkOutPipes_eq, outPipeBlock_eq_nil (by simpa using h)]
    simp

/-- The layout with the [in]s before the [out]s. -/
theorem genOper_twice {oper : Operation} (hopt : operInOutOpt oper = false) (vec : List Desc) :
    let inBlk := inBlock oper ++ storageBlock oper ++ inPipeBlock oper
    let outBlk := outPipeBlock oper ++ outBlock oper ++ freeBlock oper ++
      tailBlock oper { processingOuts := true }
    let g := genOper oper vec
    g.vec = vec ++ inBlk ++ outBlk ∧
      g.info.numIns = (inBlock oper).length +
        (if oper.hasInPipes then (storageBlock oper).length else 0) + (inPipeBlock oper).length ∧
      g.info.numSrvIns = inBlk.length ∧ g.info.insTypeVec = startAt vec.length inBlk ∧
      g.info.numOuts = outBlk.length ∧
      g.info.outsTypeVec = startAt (vec ++ inBlk).length outBlk := by
  obtain ⟨h₁, h₂, h₃, h₄, h₅, h₆⟩ :=
    genDeletions_genResult oper { processingOuts := true } (genTwice oper vec)
  have hgen : genOper oper vec = genDeletions oper { processingOuts := true }
      (genResult oper { processingOuts := true } (genTwice oper vec)) := by
    simp [genOper, hopt]
  have htwice : genTwice oper vec = walkFree oper.parameters 0 (walkOuts oper.parameters 0
      (walkOutPipes oper.parameters 0 (walkInPipes oper.parameters 0
        (walkStorage oper.hasInPipes oper.parameters 0
          { walkIns oper.parameters 0 ⟨vec, {}⟩ with
            info := { (walkIns oper.parameters 0 ⟨vec, {}⟩).info with
              numSrvIns := (walkIns oper.parameters 0 ⟨vec, {}⟩).info.numIns } })))) := by
    simp only [genTwice, walkInPipes_cond, walkOutPipes_cond]
  have hnone : ∀ o : Option ℕ, (none <|> o) = o := fun o => rfl
  rw [htwice] at h₁ h₂ h₃ h₄ h₅ h₆
  simp only [walkIns_eq, walkStorage_eq, walkInPipes_eq, walkOutPipes_eq, walkOuts_eq, walkFree_eq,
    Counted.after, Bool.toNat_true, Bool.toNat_false, ↓reduceIte, Bool.false_eq_true, hnone,
    Nat.one_mul, Nat.zero_mul, Nat.add_zero, Nat.zero_add] at h₁ h₂ h₃ h₄ h₅ h₆
  rw [hgen, htwice]
  simp only [walkIns_eq, walkStorage_eq, walkInPipes_eq, walkOutPipes_eq, walkOuts_eq, walkFree_eq,
    Counted.after, Bool.toNat_true, Bool.toNat_false, ↓reduceIte, Bool.false_eq_true, hnone,
    Nat.one_mul, Nat.zero_mul, Nat.add_zero, Nat.zero_add]
  refine ⟨?_, ?_, ?_, ?_, ?_, ?_⟩
  · rw [h₁]
    simp only [List.append_assoc]
  · rw [h₂]
    rcases oper.hasInPipes <;> simp
  · rw [h₃]
    simp only [List.length_append]
  · rw [h₄]
    simp only [startAt_append, List.length_append, Nat.add_assoc]
  · rw [h₅]
    simp only [List.length_append]
  · rw [h₆]
    simp only [startAt_append, List.length_append, Nat.add_assoc]

end Twice

/-! ### The runs -/

section Runs

theorem block_append (sel : ParamNode → Bool) (flags : ParamNode → VecFlags)
    (ps ps' : List ParamNode) (n : ℕ) :
    block sel flags (ps ++ ps') n = block sel flags ps n ++ block sel flags ps' (n + ps.length) := by
  simp only [block, List.zipIdx_append, List.filter_append, List.map_append]

/-- A description made by the one walk is of a marshalled parameter and counts as that does. -/
theorem mem_once {ps : List ParamNode} {n : ℕ} {d : Desc}
    (h : d ∈ block (fun _ => true) (fun _ => {}) ps (n + 1)) :
    ∃ p ∈ ps.filter ParamNode.irep, d.countsIn = p.isIn ∧ d.countsOut = p.isOut := by
  obtain ⟨x, hx, rfl⟩ := List.mem_map.mp h
  obtain ⟨hmem, hrep⟩ := List.mem_filter.mp hx
  have hnum : n + 1 ≤ x.2 := List.le_snd_of_mem_zipIdx hmem
  have hirep : x.1.irep = true := by
    simp only [Bool.true_and, ParamNode.represented, Bool.and_eq_true] at hrep
    exact hrep.1.1
  refine ⟨x.1, List.mem_filter.mpr ⟨List.fst_mem_of_mem_zipIdx hmem, hirep⟩, rfl, ?_⟩
  have hne : (x.2 == 0) = false := by
    rw [beq_eq_false_iff_ne]
    omega
  simp [Desc.countsOut, hne]

/-- The descriptions in the stretches of the parameters. -/
theorem onceBlock_divide {oper : Operation} {first both last : List ParamNode}
    (h : oper.parameters.filter ParamNode.irep = first ++ both ++ last) :
    ∃ d₁ d₂ d₃, onceBlock oper = d₁ ++ d₂ ++ d₃ ∧
      (∀ d ∈ d₁, ∃ p ∈ first, d.countsIn = p.isIn ∧ d.countsOut = p.isOut) ∧
      (∀ d ∈ d₂, ∃ p ∈ both, d.countsIn = p.isIn ∧ d.countsOut = p.isOut) ∧
      ∀ d ∈ d₃, ∃ p ∈ last, d.countsIn = p.isIn ∧ d.countsOut = p.isOut := by
  -- the stretches of the marshalled parameters are stretches of the whole list
  obtain ⟨m, m₃, hm, h₁₂, rfl⟩ := List.filter_eq_append_iff.mp h
  obtain ⟨m₁, m₂, rfl, rfl, rfl⟩ := List.filter_eq_append_iff.mp h₁₂
  refine ⟨_, _, _, by rw [onceBlock, hm, block_append, block_append], ?_, ?_, ?_⟩
  · exact fun d hd => mem_once (n := 0) hd
  · intro d hd
    rw [Nat.add_comm] at hd
    exact mem_once hd
  · intro d hd
    rw [Nat.add_comm] at hd
    exact mem_once hd

theorem filter_onceBlock_in (oper : Operation) : (onceBlock oper).filter Desc.countsIn =
    block ParamNode.isIn (fun _ => {}) oper.parameters 1 := by
  rw [onceBlock, block, block, List.filter_map, List.filter_filter]
  refine congrArg _ (List.filter_congr fun x _ => ?_)
  simp [Desc.countsIn]

theorem filter_onceBlock_out (oper : Operation) : (onceBlock oper).filter Desc.countsOut =
    block ParamNode.isOut (fun _ => {}) oper.parameters 1 := by
  rw [onceBlock, block, block, List.filter_map, List.filter_filter]
  refine congrArg _ (List.filter_congr fun x hx => ?_)
  have hne : (x.2 == 0) = false := by
    have := List.le_snd_of_mem_zipIdx hx
    rw [beq_eq_false_iff_ne]
    omega
  simp [Desc.countsOut, hne]

theorem countsOut_of_mem_tailBlock {oper : Operation} {d : Desc}
    (h : d ∈ tailBlock oper {}) : d.countsOut = true := by
  simp [Desc.countsOut, num_of_mem_tailBlock h]

theorem filter_tailBlock_out (oper : Operation) :
    (tailBlock oper {}).filter Desc.countsOut = tailBlock oper {} :=
  List.filter_eq_self.mpr fun _ hd => countsOut_of_mem_tailBlock hd

/-- With every parameter laid out once nothing is there for the server only. -/
theorem no_serverOnly {oper : Operation} (h : layoutExcluded oper = false) :
    oper.hasInPipes = false ∧ oper.labels ParamNode.needsStorage true = [] ∧
      oper.labels ParamNode.needsFree true = [] := by
  simp only [layoutExcluded, Bool.or_eq_false_iff] at h
  obtain ⟨⟨⟨⟨hin, _⟩, hstorage⟩, hfree⟩, _⟩ := h
  exact ⟨hin, labels_eq_nil fun p hp => by simpa using List.any_eq_false.mp hstorage p hp,
    labels_eq_nil fun p hp => by simpa using List.any_eq_false.mp hfree p hp⟩

/-- Laid out once, the recorded runs are runs in the layout. -/
theorem once_stretches {oper : Operation} (hopt : operInOutOpt oper = true)
    (vec later : List Desc) :
    let g := genOper oper vec
    stretch g.info.insTypeVec g.info.numIns (g.vec ++ later) =
        run Desc.countsIn (onceBlock oper) ∧
      stretch g.info.insTypeVec g.info.numSrvIns (g.vec ++ later) =
        run Desc.countsIn (onceBlock oper) ∧
      stretch g.info.outsTypeVec g.info.numOuts (g.vec ++ later) =
        run Desc.countsOut (onceBlock oper ++ tailBlock oper {}) := by
  obtain ⟨hvec, hins, hsrv, hmi, houts, hmo⟩ := genOper_once hopt vec
  have hin : vec ++ (onceBlock oper ++ tailBlock oper {}) ++ later =
      vec ++ onceBlock oper ++ (tailBlock oper {} ++ later) := by
    simp only [List.append_assoc]
  refine ⟨?_, ?_, ?_⟩
  · rw [hvec, hins, hmi, hin]
    exact stretch_run _ _ _ _
  · rw [hvec, hsrv, hmi, hin]
    exact stretch_run _ _ _ _
  · rw [hvec, houts, hmo]
    exact stretch_run _ _ _ _

theorem runsExact_of_contiguous {oper : Operation} (hopt : operInOutOpt oper = true)
    (hins : Contiguous Desc.countsIn (onceBlock oper))
    (houts : Contiguous Desc.countsOut (onceBlock oper ++ tailBlock oper {}))
    (vec later : List Desc) :
    RunsExact oper (genOper oper vec).info ((genOper oper vec).vec ++ later) := by
  obtain ⟨h₁, h₂, h₃⟩ := once_stretches hopt vec later
  obtain ⟨hpipes, hstorage, hfree⟩ := no_serverOnly ((operInOutOpt_iff oper).mp hopt).1
  rw [hins.run_eq_filter, filter_onceBlock_in] at h₁ h₂
  rw [houts.run_eq_filter, List.filter_append, filter_onceBlock_out, filter_tailBlock_out] at h₃
  refine ⟨?_, ?_, ?_⟩
  · rw [h₁, map_label_block oper false fun _ _ => rfl]
    simp [hpipes]
  · rw [h₂, map_label_block oper false fun _ _ => rfl, hstorage]
    simp
  · refine ⟨oper.labels ParamNode.isOut false, ?_, by simp [hfree]⟩
    rw [h₃, List.map_append, map_label_block oper false fun _ _ => rfl,
      map_label_tailBlock oper rfl, List.append_assoc]

/-- The [in]s are always together. -/
theorem contiguous_ins {oper : Operation} {d₁ d₂ d₃ : List Desc}
    (hdiv : onceBlock oper = d₁ ++ d₂ ++ d₃)
    (h₁ : (∀ d ∈ d₁, d.countsIn = true) ∨ ∀ d ∈ d₁, d.countsIn = false)
    (h₂ : ∀ d ∈ d₂, d.countsIn = true)
    (h₃ : (∀ d ∈ d₃, d.countsIn = true) ∨ ∀ d ∈ d₃, d.countsIn = false) :
    Contiguous Desc.countsIn (onceBlock oper) := by
  rcases h₁ with h₁ | h₁ <;> rcases h₃ with h₃ | h₃
  · exact ⟨[], onceBlock oper, [], by simp, by simp, by
      rw [hdiv]
      simpa [or_imp, forall_and] using ⟨h₁, h₂, h₃⟩, by simp⟩
  · exact ⟨[], d₁ ++ d₂, d₃, by simp [hdiv], by simp,
      by simpa [or_imp, forall_and] using ⟨h₁, h₂⟩, h₃⟩
  · exact ⟨d₁, d₂ ++ d₃, [], by simp [hdiv], h₁,
      by simpa [or_imp, forall_and] using ⟨h₂, h₃⟩, by simp⟩
  · exact ⟨d₁, d₂, d₃, hdiv, h₁, h₂, h₃⟩

/-- The [out]s with what comes behind are together, unless [in]s stand between. -/
theorem contiguous_outs {oper : Operation} {d₁ d₂ d₃ : List Desc}
    (hdiv : onceBlock oper = d₁ ++ d₂ ++ d₃)
    (h₁ : (∀ d ∈ d₁, d.countsOut = true) ∨ ∀ d ∈ d₁, d.countsOut = false)
    (h₂ : ∀ d ∈ d₂, d.countsOut = true)
    (h₃ : (∀ d ∈ d₃, d.countsOut = true) ∨
      (∀ d ∈ d₃, d.countsOut = false) ∧
        (d₃ = [] ∨ tailBlock oper {} = [] ∨ ∀ d ∈ d₁ ++ d₂, d.countsOut = false)) :
    Contiguous Desc.countsOut (onceBlock oper ++ tailBlock oper {}) := by
  have htail : ∀ d ∈ tailBlock oper {}, d.countsOut = true :=
    fun d hd => countsOut_of_mem_tailBlock hd
  rcases h₃ with h₃ | ⟨h₃, rfl | hnil | hnone⟩
  · rcases h₁ with h₁ | h₁
    · exact ⟨[], onceBlock oper ++ tailBlock oper {}, [], by simp, by simp, by
        rw [hdiv]
        simpa [or_imp, forall_and] using ⟨h₁, h₂, h₃, htail⟩, by simp⟩
    · exact ⟨d₁, d₂ ++ d₃ ++ tailBlock oper {}, [], by simp [hdiv], h₁,
        by simpa [or_imp, forall_and] using ⟨h₂, h₃, htail⟩, by simp⟩
  · rcases h₁ with h₁ | h₁
    · exact ⟨[], onceBlock oper ++ tailBlock oper {}, [], by simp, by simp, by
        rw [hdiv]
        simpa [or_imp, forall_and] using ⟨h₁, h₂, htail⟩, by simp⟩
    · exact ⟨d₁, d₂ ++ tailBlock oper {}, [], by simp [hdiv], h₁,
        by simpa [or_imp, forall_and] using ⟨h₂, htail⟩, by simp⟩
  · rw [hnil, List.append_nil]
    rcases h₁ with h₁ | h₁
    · exact ⟨[], d₁ ++ d₂, d₃, by simp [hdiv], by simp,
        by simpa [or_imp, forall_and] using ⟨h₁, h₂⟩, h₃⟩
    · exact ⟨d₁, d₂, d₃, hdiv, h₁, h₂, h₃⟩
  · refine ⟨onceBlock oper, tailBlock oper {}, [], by simp, ?_, htail, by simp⟩
    rw [hdiv]
    intro d hd
    rcases List.mem_append.mp hd with hd | hd
    · exact hnone d hd
    · exact h₃ d hd

theorem onceBlock_eq_map (oper : Operation) : onceBlock oper =
    (oper.numbered fun _ => true).map fun x => ⟨x.2, some x.1, {}⟩ := rfl

theorem countsOut_of_mem_numbered {oper : Operation} {q : ParamNode → Bool} {x : ParamNode × ℕ}
    (h : x ∈ oper.numbered q) : (⟨x.2, some x.1, {}⟩ : Desc).countsOut = x.1.isOut := by
  have hpos := List.le_snd_of_mem_zipIdx (List.mem_filter.mp h).1
  have hne : (x.2 == 0) = false := by
    rw [beq_eq_false_iff_ne]
    omega
  simp [Desc.countsOut, hne]

/-- An [out] before an [in] in the layout is one in the parameter list. -/
theorem parted_split {oper : Operation} {d₁ d₂ : List Desc} {d : Desc}
    (hdiv : onceBlock oper = d₁ ++ d :: d₂) (hd : d.countsIn = true ∧ d.countsOut = false)
    (hout : ∃ d' ∈ d₁, d'.countsOut = true) :
    ∃ before p after, oper.numbered (fun _ => true) = before ++ p :: after ∧
      (∃ p' ∈ before, p'.1.isOut) ∧ p.1.inOnly := by
  rw [onceBlock_eq_map] at hdiv
  obtain ⟨before, rest, hnum, rfl, hrest⟩ := List.map_eq_append_iff.mp hdiv
  obtain ⟨p, after, rfl, rfl, rfl⟩ := List.map_eq_cons_iff.mp hrest
  have hmem : ∀ x ∈ before ++ p :: after, (⟨x.2, some x.1, {}⟩ : Desc).countsOut = x.1.isOut :=
    fun x hx => countsOut_of_mem_numbered (hnum ▸ hx)
  obtain ⟨d', hd', hout⟩ := hout
  obtain ⟨p', hp', rfl⟩ := List.mem_map.mp hd'
  refine ⟨before, p, after, hnum, ⟨p', hp', ?_⟩, ?_⟩
  · rw [← hmem p' (by simp [hp'])]
    exact hout
  · have hpout : p.1.isOut = false := by
      rw [← hmem p (by simp)]
      exact hd.2
    have hpin : p.1.isIn = true := hd.1
    simp [ParamNode.inOnly, hpin, hpout]

end Runs

section Main

/-- Laid out twice, the recorded runs are those of the operation. -/
theorem runsExact_twice {oper : Operation} (hopt : operInOutOpt oper = false)
    (vec later : List Desc) :
    RunsExact oper (genOper oper vec).info ((genOper oper vec).vec ++ later) := by
  obtain ⟨hvec, hins, hsrv, hmi, houts, hmo⟩ := genOper_twice hopt vec
  have hlabelIn : (inBlock oper).map Desc.label =
      oper.labels (fun p => p.isIn && !p.pipe) false := map_label_block oper false fun _ _ => rfl
  have hlabelPipe : (inPipeBlock oper).map Desc.label =
      oper.labels (fun p => p.isIn && p.pipe) false := map_label_block oper false fun _ _ => rfl
  have hlabelStorage : (storageBlock oper).map Desc.label =
      oper.labels ParamNode.needsStorage true := by
    refine map_label_block oper true fun p hp => ?_
    rcases ha : p.allocate
    · have href : p.allocateRef = true := by simpa [ParamNode.needsStorage, ha] using hp
      simp [VecFlags.serverOnly, href]
    · simp [VecFlags.serverOnly]
  have hlabelOut : (outBlock oper).map Desc.label =
      oper.labels (fun p => p.isOut && !p.pipe) false := map_label_block oper false fun _ _ => rfl
  have hlabelOutPipe : (outPipeBlock oper).map Desc.label =
      oper.labels (fun p => p.isOut && p.pipe) false := map_label_block oper false fun _ _ => rfl
  have hlabelFree : (freeBlock oper).map Desc.label = oper.labels ParamNode.needsFree true :=
    map_label_block oper true fun _ _ => rfl
  set inBlk := inBlock oper ++ storageBlock oper ++ inPipeBlock oper with hinBlk
  set outBlk := outPipeBlock oper ++ outBlock oper ++ freeBlock oper ++
    tailBlock oper { processingOuts := true } with houtBlk
  -- the server's order differs from that of the specification in where the storage stands
  have hmove : ∀ a b c : List (ℕ × Option ParamNode × Bool), (a ++ b ++ c).Perm (a ++ c ++ b) := by
    intro a b c
    rw [List.append_assoc, List.append_assoc]
    exact List.perm_append_comm.append_left a
  have hperm : (inBlk.map Desc.label).Perm
      (oper.labels ParamNode.isIn false ++ oper.labels ParamNode.needsStorage true) := by
    rw [hinBlk, List.map_append, List.map_append, hlabelIn, hlabelStorage, hlabelPipe]
    exact (hmove _ _ _).trans ((labels_pipes oper ParamNode.isIn false).append_right _)
  have hstretch : ∀ n ≤ inBlk.length,
      stretch (genOper oper vec).info.insTypeVec n ((genOper oper vec).vec ++ later) =
        inBlk.take n := by
    intro n hn
    have hassoc : vec ++ inBlk ++ outBlk ++ later = vec ++ inBlk ++ (outBlk ++ later) := by
      simp only [List.append_assoc]
    rw [hvec, hmi, hassoc]
    exact stretch_at vec inBlk _ hn
  refine ⟨?_, ?_, ?_⟩
  · rcases hpipes : oper.hasInPipes
    · have hnil := inPipeBlock_eq_nil hpipes
      have hn : (genOper oper vec).info.numIns = (inBlock oper).length := by
        simp [hins, hpipes, hnil]
      rw [hn, hstretch _ (by simp [hinBlk])]
      rw [hinBlk, List.append_assoc, List.take_left', hlabelIn]
      · have hall := labels_pipes oper ParamNode.isIn false
        rw [← hlabelPipe, hnil, List.map_nil, List.append_nil] at hall
        simpa using hall
      · rfl
    · have hn : (genOper oper vec).info.numIns = inBlk.length := by
        simp only [hins, hpipes, ↓reduceIte, hinBlk, List.length_append]
      rw [hn, hstretch _ (Nat.le_refl _), List.take_length]
      exact hperm
  · rw [hsrv, hstretch _ (Nat.le_refl _), List.take_length]
    exact hperm
  · refine ⟨(outPipeBlock oper ++ outBlock oper ++ freeBlock oper).map Desc.label, ?_, ?_⟩
    · rw [hvec, houts, hmo, stretch_at _ _ _ (Nat.le_refl _), List.take_length, houtBlk,
        List.map_append, map_label_tailBlock oper rfl]
      exact (List.append_assoc _ _ _).symm
    · rw [List.map_append, List.map_append, hlabelOut, hlabelOutPipe, hlabelFree]
      exact (List.perm_append_comm.trans
        (labels_pipes oper ParamNode.isOut false)).append_right _

/-- Where the deleted nodes are cut off, the run of the [out]s takes in another parameter. -/
theorem not_runsExact_of_parted {oper : Operation} (hopt : operInOutOpt oper = true)
    (hparted : Parted oper) (vec later : List Desc) :
    ¬ RunsExact oper (genOper oper vec).info ((genOper oper vec).vec ++ later) := by
  intro hexact
  obtain ⟨hdel, -, hexcl, -, before, p, after, hnum, ⟨p', hp', hout⟩, hin⟩ := hparted
  obtain ⟨-, -, hrun⟩ := once_stretches hopt vec later
  obtain ⟨-, -, hfree⟩ := no_serverOnly hexcl
  obtain ⟨body, houts, hbody⟩ := hexact.outs
  rw [hrun] at houts
  rw [hfree, List.append_nil] at hbody
  have hcount : ∀ x ∈ before ++ p :: after, (⟨x.2, some x.1, {}⟩ : Desc).countsOut = x.1.isOut :=
    fun x hx => countsOut_of_mem_numbered (hnum ▸ hx)
  -- the [in] parameter lies between an [out] and the deleted nodes
  have hsplit : onceBlock oper ++ tailBlock oper {} =
      before.map (fun x => ⟨x.2, some x.1, {}⟩) ++ (⟨p.2, some p.1, {}⟩ : Desc) ::
        (after.map (fun x => ⟨x.2, some x.1, {}⟩) ++ tailBlock oper {}) := by
    rw [onceBlock_eq_map, hnum]
    simp
  have hpout : p.1.isOut = false := by
    simp only [ParamNode.inOnly, Bool.and_eq_true, Bool.not_eq_true'] at hin
    exact hin.2
  have hall : ∀ d ∈ run Desc.countsOut (onceBlock oper ++ tailBlock oper {}),
      d.countsOut = true := by
    intro d hd
    -- what the run should have is an [out] parameter or comes behind the parameters
    have hmem : d.label ∈ body ++ oper.resultLabels ++ oper.deletionLabels := by
      rw [← houts]
      exact List.mem_map_of_mem hd
    rw [List.append_assoc, List.mem_append] at hmem
    rcases hmem with hmem | hmem
    · obtain ⟨x, hx, hlabel⟩ := List.mem_map.mp (hbody.subset hmem)
      have hxout : x.1.isOut = true := by
        have := (List.mem_filter.mp hx).2
        simp only [Bool.and_eq_true] at this
        exact this.1
      have hparam : d.param = some x.1 := by
        have := congrArg (fun l => l.2.1) hlabel
        exact this.symm
      simp [Desc.countsOut, hparam, hxout]
    · rw [← map_label_tailBlock oper (rfl : ({} : VecFlags).serverOnly = false)] at hmem
      obtain ⟨d', hd', hlabel⟩ := List.mem_map.mp hmem
      have hzero : d.num = 0 := by
        have := congrArg (fun l => l.1) hlabel
        exact this.symm.trans (num_of_mem_tailBlock hd')
      simp [Desc.countsOut, hzero]
  rw [hsplit] at hall
  have hmem : (⟨p'.2, some p'.1, {}⟩ : Desc) ∈
      before.map fun x => (⟨x.2, some x.1, {}⟩ : Desc) := List.mem_map.mpr ⟨p', hp', rfl⟩
  have hdeleted : (⟨0, none, {}⟩ : Desc) ∈
      after.map (fun x => (⟨x.2, some x.1, {}⟩ : Desc)) ++ tailBlock oper {} := by
    simp [tailBlock, deletionBlock, hdel]
  exact not_forall_run hmem ((hcount p' (by simp [hp'])).trans hout)
    ((hcount p (by simp)).trans hpout) hdeleted rfl hall

/-- Laid out once, the runs are those of the operation unless the deleted nodes are cut off. -/
theorem runsExact_once {oper : Operation} (hopt : operInOutOpt oper = true)
    (hparted : ¬ Parted oper) (vec later : List Desc) :
    RunsExact oper (genOper oper vec).info ((genOper oper vec).vec ++ later) := by
  obtain ⟨hexcl, first, both, last, hirep, hfirst, hboth, hlast⟩ := (operInOutOpt_iff oper).mp hopt
  obtain ⟨d₁, d₂, d₃, hdiv, h₁, h₂, h₃⟩ := onceBlock_divide hirep
  have hinOnly : ∀ p : ParamNode, p.inOnly = true → p.isIn = true ∧ p.isOut = false := by
    simp [ParamNode.inOnly]
  have houtOnly : ∀ p : ParamNode, p.outOnly = true → p.isIn = false ∧ p.isOut = true := by
    simp [ParamNode.outOnly]
  have hinOut : ∀ p : ParamNode, p.inOut = true → p.isIn = true ∧ p.isOut = true := by
    simp [ParamNode.inOut]
  -- the classes of the descriptions in a stretch
  have hins : ∀ {ps : List ParamNode} {ds : List Desc}, (∀ p ∈ ps, p.inOnly) →
      (∀ d ∈ ds, ∃ p ∈ ps, d.countsIn = p.isIn ∧ d.countsOut = p.isOut) →
      ∀ d ∈ ds, d.countsIn = true ∧ d.countsOut = false := by
    intro ps ds hps hds d hd
    obtain ⟨p, hp, hi, ho⟩ := hds d hd
    rw [hi, ho]
    exact hinOnly p (hps p hp)
  have houts : ∀ {ps : List ParamNode} {ds : List Desc}, (∀ p ∈ ps, p.outOnly) →
      (∀ d ∈ ds, ∃ p ∈ ps, d.countsIn = p.isIn ∧ d.countsOut = p.isOut) →
      ∀ d ∈ ds, d.countsIn = false ∧ d.countsOut = true := by
    intro ps ds hps hds d hd
    obtain ⟨p, hp, hi, ho⟩ := hds d hd
    rw [hi, ho]
    exact houtOnly p (hps p hp)
  have hmiddle : ∀ d ∈ d₂, d.countsIn = true ∧ d.countsOut = true := by
    intro d hd
    obtain ⟨p, hp, hi, ho⟩ := h₂ d hd
    rw [hi, ho]
    exact hinOut p (hboth p hp)
  have hfirst' : (∀ d ∈ d₁, d.countsIn = true ∧ d.countsOut = false) ∨
      ∀ d ∈ d₁, d.countsIn = false ∧ d.countsOut = true :=
    hfirst.imp (fun h => hins h h₁) fun h => houts h h₁
  refine runsExact_of_contiguous hopt ?_ ?_ vec later
  · refine contiguous_ins hdiv ?_ (fun d hd => (hmiddle d hd).1) ?_
    · exact hfirst'.imp (fun h d hd => (h d hd).1) fun h d hd => (h d hd).1
    · rcases hlast with hlast | ⟨-, hlast⟩
      · exact Or.inr fun d hd => (houts hlast h₃ d hd).1
      · exact Or.inl fun d hd => (hins hlast h₃ d hd).1
  · refine contiguous_outs hdiv ?_ (fun d hd => (hmiddle d hd).2) ?_
    · exact (hfirst'.imp (fun h d hd => (h d hd).2) fun h d hd => (h d hd).2).symm
    · rcases hlast with hlast | ⟨hres, hlast⟩
      · exact Or.inl fun d hd => (houts hlast h₃ d hd).2
      · have hlast' := hins hlast h₃
        refine Or.inr ⟨fun d hd => (hlast' d hd).2, ?_⟩
        -- without [in]s at the end, or without deleted nodes, nothing comes between
        rcases hd₃ : d₃ with _ | ⟨d, d₃'⟩
        · exact Or.inl rfl
        · refine Or.inr ?_
          rcases hdel : oper.reflectDeletions
          · refine Or.inl ?_
            simp [tailBlock, resultBlock, deletionBlock, hdel, ParamNode.represented, hres]
          · refine Or.inr fun d' hd' => ?_
            by_contra hout
            have hout : d'.countsOut = true := by simpa using hout
            refine hparted ⟨hdel, hres, hexcl, ⟨first, both, last, hirep, hfirst, hboth, hlast⟩, ?_⟩
            rw [hd₃] at hdiv
            exact parted_split hdiv (hlast' d (by simp [hd₃])) ⟨d', hd', hout⟩

theorem operInOutOpt_of_parted {oper : Operation} (h : Parted oper) : operInOutOpt oper = true := by
  obtain ⟨-, hres, hexcl, ⟨first, both, last, hirep, hfirst, hboth, hlast⟩, -⟩ := h
  rw [operInOutOpt_iff]
  exact ⟨hexcl, first, both, last, hirep, hfirst, hboth, Or.inr ⟨hres, hlast⟩⟩

theorem genOper_vec (oper : Operation) (vec : List Desc) :
    ∃ more, (genOper oper vec).vec = vec ++ more := by
  rcases hopt : operInOutOpt oper
  · exact ⟨_, (genOper_twice hopt vec).1.trans (List.append_assoc _ _ _)⟩
  · exact ⟨_, (genOper_once hopt vec).1⟩

/-- The operations after one leave its descriptions where they are. -/
theorem genVectorReps_append (before after : List Operation) (oper : Operation) :
    ∃ later, genVectorReps (before ++ oper :: after) =
      (genOper oper (genVectorReps before)).vec ++ later := by
  simp only [genVectorReps, List.foldl_append, List.foldl_cons]
  generalize (genOper oper (before.foldl (fun vec oper => (genOper oper vec).vec) [])).vec = vec
  induction after generalizing vec with
  | nil => exact ⟨[], by simp⟩
  | cons oper' after ih =>
    obtain ⟨more, hmore⟩ := genOper_vec oper' vec
    obtain ⟨later, hlater⟩ := ih (genOper oper' vec).vec
    exact ⟨more ++ later, by rw [List.foldl_cons, hlater, hmore, List.append_assoc]⟩

/-- In the type vector of an interface the runs recorded for an operation are its parameters
exactly when its deleted nodes are not cut off from its [out] parameters. -/
theorem runsExact_iff (before after : List Operation) (oper : Operation) :
    RunsExact oper (genOper oper (genVectorReps before)).info
        (genVectorReps (before ++ oper :: after)) ↔ ¬ Parted oper := by
  obtain ⟨later, hlater⟩ := genVectorReps_append before after oper
  rw [hlater]
  constructor
  · intro hexact hparted
    exact not_runsExact_of_parted (operInOutOpt_of_parted hparted) hparted _ _ hexact
  · intro hparted
    rcases hopt : operInOutOpt oper
    · exact runsExact_twice hopt _ _
    · exact runsExact_once hopt hparted _ _

/-- An [in,out] and an [in] parameter, and the deleted nodes. -/
def reflecting : Operation where
  parameters := [{ kind := .other, isIn := true, isOut := true }, { kind := .other, isIn := true }]
  result := { kind := .other, irep := false }
  reflectDeletions := true
  described := by
    intro p hp _ num
    rcases List.mem_pair.mp hp with rfl | rfl <;> simp [ParamNode.represented]

/-- The run of its [out]s is both of its parameters. -/
theorem not_runsExact : ¬ ∀ before after : List Operation, ∀ oper : Operation,
    RunsExact oper (genOper oper (genVectorReps before)).info
      (genVectorReps (before ++ oper :: after)) := by
  intro h
  obtain ⟨body, houts, -⟩ := (h [] [] reflecting).outs
  have hlast := congrArg List.getLast? houts
  have hdel : reflecting.deletionLabels = [(0, none, false)] := rfl
  rw [hdel, List.getLast?_append, List.getLast?_singleton, Option.some_or] at hlast
  exact absurd hlast (by decide)

end Main

end Idl
