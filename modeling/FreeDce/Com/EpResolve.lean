/-
Resolution of an endpoint (`ep_get_endpoint`, `rpc_ep_resolve_binding` in comep.c).

A binding without endpoint is turned into a binding to the endpoint mapper, the mapper is asked for
the towers that are compatible with it, one of them is picked, and its endpoint put into the
binding.  All ways out but the first ones lead through one clean-up, which is to put back what was
changed and to free what was made.

* `lookUp_spec` — the loop that asks for more towers frees all but those of the last answer;
* `cleanUp_iff` — what the clean-up achieves, from any state it is reached in;
* `transactional_iff` — for which bindings and outcomes of the steps the binding comes back as it
  was but for the endpoint, with everything freed (`not_transactional`).

The flag that says whether the protocol version was made here starts as true, so a binding with a
protocol version of its own loses it.
-/
import Mathlib.Data.List.Perm.Basic
import Mathlib.Tactic.Common

namespace Resolve

/-- The statuses that decide a branch. -/
inductive Status
  | ok | endpointNotFound | rpcdCommFailure | other (code : ℕ)
deriving DecidableEq

/-- The fields of a binding that the routine touches; `endpoint` is the one in its address. -/
structure Binding where
  object : ℕ
  timeout : ℕ
  authInfo : Option ℕ
  protVersion : Option ℕ
  endpoint : Option ℕ
  hasEndpoint : Bool
deriving DecidableEq

/-- A binding without endpoint. -/
structure Unbound where
  object : ℕ
  timeout : ℕ
  authInfo : Option ℕ
  protVersion : Option ℕ
deriving DecidableEq

def Unbound.binding (b : Unbound) : Binding :=
  { object := b.object, timeout := b.timeout, authInfo := b.authInfo,
    protVersion := b.protVersion, endpoint := none, hasEndpoint := false }

/-- `uuid_g_nil_uuid`. -/
def nilUuid : ℕ := 0

/-- `rpc_c_binding_default_timeout`. -/
def defaultTimeout : ℕ := 5

/-- What is made on the way: the array of the `i`-th call of the mapper and the towers put into it,
the tower sent, the vector it was taken from, the address of the tower picked and its endpoint. -/
inductive Res
  | array (i : ℕ) | tower (i j : ℕ) | mapTower | towerVector | towerAddr | endpoint
deriving DecidableEq

/-- How the calls of the mapper end: an exception in `ept_map`, one in `ept_lookup_handle_free`
after an answer, or an answer without a handle.  An answer is the endpoints of its towers. -/
inductive Last
  | mapException | freeException (towers : List ℕ) | answered (towers : List ℕ) (st : Status)
deriving DecidableEq

/-- The outcomes of the steps.  The mapper answers with a handle as often as `more` says. -/
structure Script where
  wkEndpoint : ℕ × Status
  changed : Status := .ok
  inqObject : Status := .ok
  inqTimeout : Status := .ok
  setObject : Status := .ok
  setTimeout : Status := .ok
  mapperEndpoint : ℕ × Status := (135, .ok)
  inqProtVersion : ℕ × Status := (5, .ok)
  protVersionAlloc : Status := .ok
  changedToMapper : Status := .ok
  towerRefVec : Status := .ok
  towerFromRef : Status := .ok
  more : List (List ℕ) := []
  last : Last
  random : ℕ := 0
  flrsToAddr : Status := .ok
  inqEndpoint : Status := .ok
  reset : Status := .ok
  setEndpoint : Status := .ok
  changedToServer : Status := .ok
  clearEndpoint : Status := .ok
  restoreTimeout : Status := .ok
  restoreObject : Status := .ok
  towerFree : Status := .ok
  towerRefVecFree : Status := .ok
  addrFree : Status := .ok
  stringFree : Status := .ok

/-- The stub allocation routines in force: the caller's, or `rpc__ep_mem_alloc` and
`rpc__ep_mem_free`. -/
inductive Allocation
  | caller | ep
deriving DecidableEq

/-- The binding with the local variables of the routine, and what was made and freed. -/
structure St where
  binding : Binding
  inForce : Allocation := .caller
  made : List Res := []
  freed : List Res := []
  towers : Option (ℕ × List ℕ) := none
  numTowers : ℕ := 0
  mapTower : Bool := false
  towerVector : Bool := false
  towerAddr : Bool := false
  endpoint : Option ℕ := none
  fullRestoreFlag : Bool := true
  freeProtVersion : Bool := true
deriving DecidableEq

/-! ### The calls of the mapper -/

/-- The towers of an array that are there, of the first `n`. -/
def towersOf (i n : ℕ) (towers : List ℕ) : List Res := (List.range (min n towers.length)).map (.tower i)

/-- The array for the `i`-th call, with nothing in it. -/
def St.newArray (s : St) (i : ℕ) : St :=
  { s with towers := some (i, []), made := s.made ++ [.array i] }

/-- `rpc_ss_swap_client_alloc_free`. -/
def St.swap (s : St) (a : Allocation) : St := { s with inForce := a }

/-- What `ept_map` brings back. -/
def St.answer (s : St) (i : ℕ) (towers : List ℕ) : St :=
  { s with
    towers := some (i, towers)
    numTowers := towers.length
    made := s.made ++ towersOf i towers.length towers }

/-- Frees the towers and the array of the `i`-th call. -/
def St.discard (s : St) (i : ℕ) (towers : List ℕ) : St :=
  { s with towers := none, freed := s.freed ++ towersOf i s.numTowers towers ++ [.array i] }

/-- The loop around `ept_map` and the handler of its exceptions. -/
def lookUp (last : Last) : List (List ℕ) → ℕ → St → Status × St
  | [], i, s =>
    let old := s.inForce
    let s := (s.newArray i).swap .ep
    match last with
    -- the exception leaves the block before the routines are swapped back
    | .mapException => (.rpcdCommFailure, s)
    | .freeException towers => (.rpcdCommFailure, ((s.answer i towers).swap old).discard i towers)
    | .answered towers st => (st, (s.answer i towers).swap old)
  | towers :: more, i, s =>
    let old := s.inForce
    let s := (s.newArray i).swap .ep
    lookUp last more (i + 1) (((s.answer i towers).swap old).discard i towers)

/-! ### The routine -/

/-- What was saved of the binding. -/
structure Saved where
  object : ℕ
  timeout : ℕ
  authInfo : Option ℕ

def Unbound.saved (b : Unbound) : Saved := ⟨b.object, b.timeout, b.authInfo⟩

/-- `rpc_mgmt_set_com_timeout`. -/
def St.putTimeout (s : St) (timeout : ℕ) : St :=
  { s with binding := { s.binding with timeout := timeout } }

/-- `rpc_binding_set_object`. -/
def St.putObject (s : St) (object : ℕ) : St :=
  { s with binding := { s.binding with object := object } }

/-- Frees one after the other what is there; a failure skips the rest. -/
def releaseAll : List (Res × Status) → St → Status × St
  | [], s => (.ok, s)
  | (r, st) :: l, s =>
    if st = .ok then releaseAll l { s with freed := s.freed ++ [r] } else (st, s)

/-- The last pointers of the clean-up that are not NULL. -/
def St.pending (s : St) (script : Script) : List (Res × Status) :=
  (if s.mapTower then [(.mapTower, script.towerFree)] else []) ++
  (if s.towerVector then [(.towerVector, script.towerRefVecFree)] else []) ++
  (if s.towerAddr then [(.towerAddr, script.addrFree)] else []) ++
  (if s.endpoint.isSome then [(.endpoint, script.stringFree)] else [])

/-- The first part of the clean-up, which has no failures. -/
def St.restore (s : St) (script : Script) (saved : Saved) : St :=
  let b := s.binding
  let b :=
    if s.fullRestoreFlag then
      { b with
        hasEndpoint := false
        endpoint := if script.clearEndpoint = .ok then none else b.endpoint }
    else b
  let freed :=
    match s.towers with
    | none => s.freed
    | some (i, towers) => s.freed ++ towersOf i s.numTowers towers ++ [.array i]
  -- whether the version was made here or not
  let b := if s.freeProtVersion then { b with protVersion := none } else b
  { s with binding := { b with authInfo := saved.authInfo }, freed := freed, towers := none }

/-- The second part, up to the label EXIT: the status of the last step, and the state. -/
def St.release (s : St) (script : Script) (saved : Saved) : Status × St :=
  if script.restoreTimeout ≠ .ok then (script.restoreTimeout, s)
  else
    let s := s.putTimeout saved.timeout
    if script.restoreObject ≠ .ok then (script.restoreObject, s)
    else
      let s := s.putObject saved.object
      releaseAll (s.pending script) s

/-- From the label CLEANUP on. -/
def cleanUp (script : Script) (saved : Saved) (st : Status) (s : St) : Status × St :=
  let out := (s.restore script saved).release script saved
  if st ≠ .ok then (st, out.2) else out

/-- The steps with the tower that was picked, whose endpoint is `e`. -/
def useTower (script : Script) (e : ℕ) (s : St) : Status × St :=
  if script.flrsToAddr ≠ .ok then (script.flrsToAddr, s)
  else
    let s := { s with towerAddr := true, made := s.made ++ [.towerAddr] }
    if script.inqEndpoint ≠ .ok then (script.inqEndpoint, s)
    else
      let s := { s with endpoint := some e, made := s.made ++ [.endpoint] }
      -- the reset clears the mapper's endpoint with the boot time
      if script.reset ≠ .ok then (script.reset, s)
      else
        let s := { s with binding := { s.binding with endpoint := none, hasEndpoint := false } }
        if script.setEndpoint ≠ .ok then (script.setEndpoint, s)
        else
          let s := { s with binding := { s.binding with endpoint := some e, hasEndpoint := true } }
          if script.changedToServer ≠ .ok then (script.changedToServer, s)
          else (.ok, { s with fullRestoreFlag := false })

/-- `RPC_RANDOM_GET` among the towers of the last answer; `none` when there is none to pick. -/
def pickTower (script : Script) (s : St) : Option (Status × St) :=
  match s.towers with
  | none => none
  | some (_, towers) =>
    if s.numTowers = 0 then none
    else (towers[script.random % s.numTowers]?).map fun e => useTower script e s

/-- The mapper is asked with a tower made from the binding. -/
def askMapper (script : Script) (s : St) : Option (Status × St) :=
  if script.towerRefVec ≠ .ok then some (script.towerRefVec, s)
  else
    let s := { s with towerVector := true, made := s.made ++ [.towerVector] }
    if script.towerFromRef ≠ .ok then some (script.towerFromRef, s)
    else
      let s := { s with mapTower := true, made := s.made ++ [.mapTower] }
      let (st, s) := lookUp script.last script.more 1 s
      if st ≠ .ok then some (st, s) else pickTower script s

/-- The protocol service is told that the binding leads to the mapper. -/
def changeToMapper (script : Script) (s : St) : Option (Status × St) :=
  if script.changedToMapper ≠ .ok then some (script.changedToMapper, s)
  else askMapper script { s with binding := { s.binding with hasEndpoint := true } }

/-- A binding without protocol version is given one. -/
def giveVersion (script : Script) (s : St) : Option (Status × St) :=
  if s.binding.protVersion = none then
    if script.inqProtVersion.2 ≠ .ok then some (script.inqProtVersion.2, s)
    else if script.protVersionAlloc ≠ .ok then some (script.protVersionAlloc, s)
    else
      changeToMapper script
        { s with
          binding := { s.binding with protVersion := some script.inqProtVersion.1 }
          freeProtVersion := true }
  else changeToMapper script s

/-- The binding becomes one to the mapper.  The result is what holds at the label CLEANUP. -/
def bindToMapper (script : Script) (s : St) : Option (Status × St) :=
  if script.setObject ≠ .ok then some (script.setObject, s)
  else
    let s := s.putObject nilUuid
    if script.setTimeout ≠ .ok then some (script.setTimeout, s)
    else
      let s := s.putTimeout defaultTimeout
      let s := { s with binding := { s.binding with authInfo := none } }
      if script.mapperEndpoint.2 ≠ .ok then some (script.mapperEndpoint.2, s)
      else
        giveVersion script
          { s with binding := { s.binding with endpoint := some script.mapperEndpoint.1 } }

/-- `ep_get_endpoint`; `none` when memory is read that is not there. -/
def epGetEndpoint (script : Script) (b : Binding) : Option (Status × St) :=
  if script.wkEndpoint.2 = .ok then
    let b := { b with endpoint := some script.wkEndpoint.1 }
    -- a failure here returns with the endpoint in the address
    if script.changed ≠ .ok then some (script.changed, { binding := b })
    else some (.ok, { binding := { b with hasEndpoint := true } })
  else if script.wkEndpoint.2 ≠ .endpointNotFound then
    some (script.wkEndpoint.2, { binding := b })
  else if script.inqObject ≠ .ok then some (script.inqObject, { binding := b })
  else if script.inqTimeout ≠ .ok then some (script.inqTimeout, { binding := b })
  else
    (bindToMapper script { binding := b }).map fun (st, s) =>
      cleanUp script ⟨b.object, b.timeout, b.authInfo⟩ st s

/-- `rpc_ep_resolve_binding`, after the binding was checked. -/
def epResolveBinding (script : Script) (b : Binding) : Option (Status × St) :=
  if !b.hasEndpoint then epGetEndpoint script b else some (.ok, { binding := b })

/-- The endpoints that the binding may be given. -/
def Script.offered (script : Script) : List ℕ :=
  if script.wkEndpoint.2 = .ok then [script.wkEndpoint.1]
  else
    match script.last with
    | .answered towers _ => towers
    | _ => []

/-- The binding is as it was but for the endpoint, which is there exactly on success, and nothing
else has changed. -/
structure Resolved (script : Script) (b : Unbound) (out : Status × St) : Prop where
  object : out.2.binding.object = b.object
  timeout : out.2.binding.timeout = b.timeout
  authInfo : out.2.binding.authInfo = b.authInfo
  protVersion : out.2.binding.protVersion = b.protVersion
  failure : out.1 ≠ .ok → out.2.binding.endpoint = none ∧ out.2.binding.hasEndpoint = false
  success : out.1 = .ok → out.2.binding.hasEndpoint = true ∧
    ∃ e ∈ script.offered, out.2.binding.endpoint = some e
  freed : out.2.made.Perm out.2.freed
  inForce : out.2.inForce = .caller

/-- The resolution ends, and with that result. -/
def Transactional (script : Script) (b : Unbound) : Prop :=
  ∃ out, epResolveBinding script b.binding = some out ∧ Resolved script b out

/-! ### What is made is freed -/

/-- The array of the mapper's answer with its towers. -/
def St.held (s : St) : List Res :=
  match s.towers with
  | none => []
  | some (i, towers) => towersOf i s.numTowers towers ++ [.array i]

/-- Everything made is freed or can still be freed. -/
def St.Accounted (s : St) (script : Script) : Prop :=
  s.made.Perm (s.freed ++ s.held ++ (s.pending script).map Prod.fst)

/-- What is made newly is freed or held. -/
theorem St.Accounted.add {script : Script} {s s' : St} (h : s.Accounted script) (new : List Res)
    (hpending : s'.pending script = s.pending script) (hmade : s'.made = s.made ++ new)
    (hnew : (s'.freed ++ s'.held).Perm (s.freed ++ s.held ++ new)) : s'.Accounted script := by
  rw [St.Accounted, hpending, hmade]
  have hswap : (s.freed ++ s.held ++ (s.pending script).map Prod.fst ++ new).Perm
      (s.freed ++ s.held ++ new ++ (s.pending script).map Prod.fst) := by
    rw [List.append_assoc, List.append_assoc (s.freed ++ s.held)]
    exact List.perm_append_comm.append_left _
  exact ((h.append_right new).trans hswap).trans (hnew.symm.append_right _)

/-- An answer that is thrown away. -/
def St.thrown (s : St) (i : ℕ) (towers : List ℕ) : St :=
  { s with
    made := s.made ++ [.array i] ++ towersOf i towers.length towers
    freed := s.freed ++ towersOf i towers.length towers ++ [.array i]
    numTowers := towers.length }

theorem St.thrown_eq {s : St} (h : s.towers = none) (i : ℕ) (towers : List ℕ) :
    ((((s.newArray i).swap .ep).answer i towers).swap s.inForce).discard i towers =
      s.thrown i towers := by
  simp [St.discard, St.answer, St.swap, St.newArray, St.thrown, h]

theorem St.Accounted.thrown {script : Script} {s : St} (h : s.Accounted script)
    (htowers : s.towers = none) (i : ℕ) (towers : List ℕ) :
    (s.thrown i towers).Accounted script := by
  refine h.add ([.array i] ++ towersOf i towers.length towers) rfl (by simp [St.thrown]) ?_
  simp only [St.thrown, St.held, htowers, List.append_nil, List.append_assoc]
  exact List.perm_append_comm.append_left _

/-- How the loop ends. -/
def Last.status : Last → Status
  | .mapException => .rpcdCommFailure
  | .freeException _ => .rpcdCommFailure
  | .answered _ st => st

/-- The loop leaves the array of the last answer, and the caller's allocation routines unless the
mapper raised an exception. -/
theorem lookUp_spec (script : Script) (last : Last) (more : List (List ℕ)) (i : ℕ) (s : St)
    (hacct : s.Accounted script) (htowers : s.towers = none) :
    let out := lookUp last more i s
    out.1 = last.status ∧ out.2.Accounted script ∧ out.2.binding = s.binding ∧
      out.2.pending script = s.pending script ∧ out.2.mapTower = s.mapTower ∧
      out.2.towerVector = s.towerVector ∧ out.2.towerAddr = s.towerAddr ∧
      out.2.endpoint = s.endpoint ∧ out.2.fullRestoreFlag = s.fullRestoreFlag ∧
      out.2.freeProtVersion = s.freeProtVersion ∧
      out.2.inForce = (if last = .mapException then .ep else s.inForce) ∧
      ∀ towers st, last = .answered towers st →
        (∃ j, out.2.towers = some (j, towers)) ∧ out.2.numTowers = towers.length := by
  induction more generalizing i s with
  | nil =>
    rcases last with _ | towers | ⟨towers, st⟩
    · refine ⟨rfl, ?_, rfl, rfl, rfl, rfl, rfl, rfl, rfl, rfl, rfl, by simp⟩
      refine hacct.add [.array i] rfl rfl ?_
      simp [lookUp, St.newArray, St.swap, St.held, htowers, towersOf]
    · have hlook : lookUp (.freeException towers) [] i s =
          (.rpcdCommFailure, s.thrown i towers) := by
        simp only [lookUp, ← St.thrown_eq htowers]
      rw [hlook]
      exact ⟨rfl, hacct.thrown htowers i towers, rfl, rfl, rfl, rfl, rfl, rfl, rfl, rfl, rfl, by simp⟩
    · refine ⟨rfl, ?_, rfl, rfl, rfl, rfl, rfl, rfl, rfl, rfl, rfl, ?_⟩
      · refine hacct.add ([.array i] ++ towersOf i towers.length towers) rfl
          (by simp [lookUp, St.newArray, St.swap, St.answer]) ?_
        simp only [lookUp, St.newArray, St.swap, St.answer, St.held, htowers, List.append_nil]
        exact List.perm_append_comm.append_left _
      · rintro towers' st' ⟨⟩
        exact ⟨⟨i, rfl⟩, rfl⟩
  | cons towers more ih =>
    have hlook : lookUp last (towers :: more) i s = lookUp last more (i + 1) (s.thrown i towers) := by
      simp only [lookUp, ← St.thrown_eq htowers]
    rw [hlook]
    exact ih (i + 1) _ (hacct.thrown htowers i towers) htowers

/-! ### The clean-up -/

theorem releaseAll_spec (l : List (Res × Status)) (s : St) :
    ((releaseAll l s).1 = .ok ↔ ∀ x ∈ l, x.2 = .ok) ∧
      ∃ f, (releaseAll l s).2 = { s with freed := s.freed ++ f } ∧
        ((∀ x ∈ l, x.2 = .ok) → f = l.map Prod.fst) ∧
        ((¬ ∀ x ∈ l, x.2 = .ok) → f.length < l.length) := by
  induction l generalizing s with
  | nil =>
    exact ⟨by simp [releaseAll], [], by simp [releaseAll], by simp, by simp⟩
  | cons x l ih =>
    obtain ⟨r, st⟩ := x
    by_cases hst : st = .ok
    · obtain ⟨hfst, f, hf, hall, hsome⟩ := ih { s with freed := s.freed ++ [r] }
      refine ⟨by simp [releaseAll, hst, hfst], r :: f, by simp [releaseAll, hst, hf], ?_, ?_⟩
      · intro h
        simp only [List.map_cons, hall fun x hx => h x (List.mem_cons_of_mem _ hx)]
      · intro h
        have : ¬ ∀ x ∈ l, x.2 = .ok := by
          intro h'
          exact h (by simpa [hst] using h')
        simpa using hsome this
    · refine ⟨by simp [releaseAll, hst], [], by simp [releaseAll, hst], ?_, by simp⟩
      intro h
      exact absurd (h (r, st) (by simp)) hst

/-- What holds where the clean-up begins: the flags say what is to be undone. -/
structure AtCleanUp (script : Script) (st : Status) (s : St) : Prop where
  accounted : s.Accounted script
  freeProtVersion : s.freeProtVersion = true
  failed : st ≠ .ok → s.fullRestoreFlag = true
  done : st = .ok → s.fullRestoreFlag = false ∧ s.towerVector = true ∧
    s.binding.hasEndpoint = true ∧ ∃ e ∈ script.offered, s.binding.endpoint = some e
  pending : s.towerVector = false → s.pending script = []

/-- The two calls that restore the binding, where something is left to be restored or freed. -/
def Restorable (script : Script) (timeoutSame objectSame : Prop) : Prop :=
  (script.restoreTimeout = .ok ∨ (timeoutSame ∧ objectSame)) ∧
    (script.restoreObject = .ok ∨ script.restoreTimeout ≠ .ok ∨ objectSame)

theorem restore_accounted {script : Script} {saved : Saved} {s : St} (h : s.Accounted script) :
    (s.restore script saved).made.Perm
      ((s.restore script saved).freed ++ (s.pending script).map Prod.fst) := by
  have hfreed : (s.restore script saved).freed = s.freed ++ s.held := by
    rcases ht : s.towers with _ | ⟨i, towers⟩
    · simp [St.restore, St.held, ht]
    · simp [St.restore, St.held, ht]
  rw [hfreed]
  exact h

/-- The result, from what the second part of the clean-up leaves. -/
theorem resolved_iff {script : Script} {b : Unbound} {st : Status} {s t : St} (temp : Status)
    (h : AtCleanUp script st s)
    (hrest : { t.binding with object := s.binding.object, timeout := s.binding.timeout } =
      (s.restore script b.saved).binding)
    (hforce : t.inForce = s.inForce) :
    Resolved script b (if st ≠ .ok then (st, t) else (temp, t)) ↔
      t.binding.object = b.object ∧ t.binding.timeout = b.timeout ∧ b.protVersion = none ∧
        s.inForce = .caller ∧ t.made.Perm t.freed ∧
        (st ≠ .ok → script.clearEndpoint = .ok ∨ s.binding.endpoint = none) ∧
        (st = .ok → temp = .ok) := by
  -- the first part restores these whatever the second does
  have hauth : t.binding.authInfo = b.authInfo := by
    have := congrArg Binding.authInfo hrest
    simpa [St.restore, Unbound.saved] using this
  have hprot : t.binding.protVersion = none := by
    have := congrArg Binding.protVersion hrest
    simpa [St.restore, h.freeProtVersion] using this
  by_cases hst : st = .ok
  · -- the server's endpoint is in the binding, and the flag keeps it there
    obtain ⟨hflag, -, hhas, e, he, hep⟩ := h.done hst
    have hep' : t.binding.endpoint = some e := by
      have := congrArg Binding.endpoint hrest
      simpa [St.restore, h.freeProtVersion, hflag, hep] using this
    have hhas' : t.binding.hasEndpoint = true := by
      have := congrArg Binding.hasEndpoint hrest
      simpa [St.restore, h.freeProtVersion, hflag, hhas] using this
    simp only [hst, ne_eq, not_true_eq_false, ↓reduceIte, false_implies, true_and, true_implies]
    constructor
    · rintro ⟨h₁, h₂, -, h₄, h₅, -, h₇, h₈⟩
      refine ⟨h₁, h₂, h₄.symm.trans hprot, hforce.symm.trans h₈, h₇, ?_⟩
      by_contra htemp
      simpa [hhas'] using (h₅ htemp).2
    · rintro ⟨h₁, h₂, h₃, h₄, h₅, h₆⟩
      exact ⟨h₁, h₂, hauth, hprot.trans h₃.symm, fun hne => absurd h₆ hne,
        fun _ => ⟨hhas', e, he, hep'⟩, h₅, hforce.trans h₄⟩
  · -- the endpoint is cleared as far as that succeeds
    have hflag := h.failed hst
    have hep : t.binding.endpoint = none ↔
        script.clearEndpoint = .ok ∨ s.binding.endpoint = none := by
      have := congrArg Binding.endpoint hrest
      simp only [St.restore, h.freeProtVersion, hflag, ↓reduceIte] at this
      rw [this]
      split_ifs with hclear <;> simp [hclear]
    have hhas : t.binding.hasEndpoint = false := by
      have := congrArg Binding.hasEndpoint hrest
      simpa [St.restore, h.freeProtVersion, hflag] using this
    simp only [hst, ne_eq, not_false_eq_true, ↓reduceIte, true_implies, false_implies, and_true]
    constructor
    · rintro ⟨h₁, h₂, -, h₄, h₅, -, h₇, h₈⟩
      exact ⟨h₁, h₂, h₄.symm.trans hprot, hforce.symm.trans h₈, h₇, hep.mp (h₅ hst).1⟩
    · rintro ⟨h₁, h₂, h₃, h₄, h₅, h₆⟩
      exact ⟨h₁, h₂, hauth, hprot.trans h₃.symm, fun _ => ⟨hep.mpr h₆, hhas⟩,
        fun heq => absurd heq hst, h₅, hforce.trans h₄⟩

/-- Freed is what was made when nothing is left. -/
theorem perm_iff_of_left {made freed left : List Res} (h : made.Perm (freed ++ left)) :
    made.Perm freed ↔ left = [] := by
  constructor
  · intro h'
    have hlen := h.length_eq
    rw [h'.length_eq, List.length_append] at hlen
    exact List.length_eq_zero_iff.mp (by omega)
  · rintro rfl
    simpa using h

/-- The second part of the clean-up: it stops at a failure, and then what was to be freed is not. -/
theorem release_spec (script : Script) (saved : Saved) (r : St) :
    let out := r.release script saved
    let restored := script.restoreTimeout = .ok ∧ script.restoreObject = .ok
    let allFreed := ∀ x ∈ r.pending script, x.2 = .ok
    { out.2.binding with object := r.binding.object, timeout := r.binding.timeout } = r.binding ∧
      out.2.inForce = r.inForce ∧ out.2.made = r.made ∧
      out.2.binding.timeout =
        (if script.restoreTimeout = .ok then saved.timeout else r.binding.timeout) ∧
      out.2.binding.object =
        (if script.restoreTimeout = .ok ∧ script.restoreObject = .ok then saved.object
          else r.binding.object) ∧
      (out.1 = .ok ↔ restored ∧ allFreed) ∧
      (r.made.Perm (r.freed ++ (r.pending script).map Prod.fst) →
        (r.made.Perm out.2.freed ↔ r.pending script = [] ∨ (restored ∧ allFreed))) := by
  by_cases hto : script.restoreTimeout = .ok
  · by_cases hob : script.restoreObject = .ok
    · -- everything is restored, and the frees are reached
      have hrel : r.release script saved = releaseAll (r.pending script)
          ((r.putTimeout saved.timeout).putObject saved.object) := by
        simp only [St.release, hto, hob, ne_eq, not_true_eq_false, ↓reduceIte]
        rfl
      obtain ⟨hfst, f, hf, hall, hsome⟩ := releaseAll_spec (r.pending script)
        ((r.putTimeout saved.timeout).putObject saved.object)
      rw [hrel]
      dsimp only
      rw [hf, hfst]
      refine ⟨rfl, rfl, rfl, by simp [hto, St.putObject, St.putTimeout],
        by simp [hto, hob, St.putObject], by simp [hto, hob], fun hacct => ?_⟩
      simp only [hto, hob, and_self, true_and]
      constructor
      · intro hperm
        refine Or.inr (by_contra fun hnot => ?_)
        have hlt := hsome hnot
        have hlen := (hacct.symm.trans hperm).length_eq
        simp only [St.putObject, St.putTimeout, List.length_append, List.length_map] at hlen
        omega
      · intro h
        have hok : ∀ x ∈ r.pending script, x.2 = .ok := by
          rcases h with hnil | hok
          · simp [hnil]
          · exact hok
        rw [hall hok]
        exact hacct
    · -- the object stays, and nothing is freed
      have hrel : r.release script saved = (script.restoreObject, r.putTimeout saved.timeout) := by
        simp only [St.release, hto, hob, ne_eq, not_true_eq_false, not_false_eq_true, ↓reduceIte]
      rw [hrel]
      refine ⟨rfl, rfl, rfl, by simp [hto, St.putTimeout], by simp [hob, St.putTimeout],
        by simp [hob], fun hacct => ?_⟩
      have hleft := perm_iff_of_left hacct
      rw [List.map_eq_nil_iff] at hleft
      simpa [hob, St.putTimeout] using hleft
  · have hrel : r.release script saved = (script.restoreTimeout, r) := by
      simp only [St.release, hto, ne_eq, not_false_eq_true, ↓reduceIte]
    rw [hrel]
    refine ⟨rfl, rfl, rfl, by simp [hto], by simp [hto], by simp [hto], fun hacct => ?_⟩
    have hleft := perm_iff_of_left hacct
    rw [List.map_eq_nil_iff] at hleft
    simpa [hto] using hleft

/-- What the clean-up achieves. -/
theorem cleanUp_iff {script : Script} {b : Unbound} {st : Status} {s : St}
    (h : AtCleanUp script st s) :
    Resolved script b (cleanUp script b.saved st s) ↔
      b.protVersion = none ∧ s.inForce = .caller ∧
        (st ≠ .ok → script.clearEndpoint = .ok ∨ s.binding.endpoint = none) ∧
        Restorable script (s.binding.timeout = b.timeout ∧ s.towerVector = false)
          (s.binding.object = b.object ∧ s.towerVector = false) ∧
        ∀ x ∈ s.pending script, x.2 = .ok := by
  have hobj : (s.restore script b.saved).binding.object = s.binding.object := by
    rcases hf : s.fullRestoreFlag <;> simp [St.restore, h.freeProtVersion, hf]
  have htime : (s.restore script b.saved).binding.timeout = s.binding.timeout := by
    rcases hf : s.fullRestoreFlag <;> simp [St.restore, h.freeProtVersion, hf]
  have hpend : (s.restore script b.saved).pending script = s.pending script := rfl
  have hvec : s.pending script = [] ↔ s.towerVector = false := by
    refine ⟨fun hnil => ?_, h.pending⟩
    by_contra hvec
    simp [St.pending, hvec] at hnil
  have hnil : s.towerVector = false → ∀ x ∈ s.pending script, x.2 = .ok := by
    intro hv
    simp [hvec.mpr hv]
  obtain ⟨hrest, hforce, hmade, htime', hobj', hfst, hfreed⟩ :=
    release_spec script b.saved (s.restore script b.saved)
  have hfreed := hfreed (restore_accounted h.accounted)
  rw [hpend] at hfst hfreed
  rw [hobj, htime] at hrest
  rw [← hmade] at hfreed
  refine (resolved_iff ((s.restore script b.saved).release script b.saved).1 h hrest hforce).trans ?_
  rw [htime', hobj', hfreed, hfst, hobj, htime, hvec]
  have hto' : b.saved.timeout = b.timeout := rfl
  have hob' : b.saved.object = b.object := rfl
  clear hrest hforce hmade htime' hobj' hfst hfreed hobj htime hpend hvec
  by_cases hst : st = .ok
  · have hv : s.towerVector = true := (h.done hst).2.1
    by_cases hto : script.restoreTimeout = .ok <;> by_cases hob : script.restoreObject = .ok <;>
      simp [Restorable, hst, hv, hto, hob, hto', hob']
  · clear h
    generalize (∀ x ∈ s.pending script, x.2 = .ok) = all at hnil ⊢
    generalize (script.clearEndpoint = .ok ∨ s.binding.endpoint = none) = clear
    generalize (s.towerVector = false) = noVector at hnil ⊢
    by_cases hto : script.restoreTimeout = .ok <;> by_cases hob : script.restoreObject = .ok <;>
      simp only [Restorable, hst, hto, hob, hto', hob', ↓reduceIte, and_true, true_and, and_false,
        false_and, or_false, ne_eq, not_true_eq_false, not_false_eq_true, false_or, true_or] <;>
      tauto

/-! ### The way to the clean-up -/

/-- From the label CLEANUP on the binding is resolved. -/
def Good (script : Script) (b : Unbound) (o : Option (Status × St)) : Prop :=
  ∃ st s, o = some (st, s) ∧ Resolved script b (cleanUp script b.saved st s)

theorem good_some {script : Script} {b : Unbound} {st : Status} {s : St} :
    Good script b (some (st, s)) ↔ Resolved script b (cleanUp script b.saved st s) := by
  constructor
  · rintro ⟨st', s', heq, h⟩
    cases heq
    exact h
  · exact fun h => ⟨st, s, rfl, h⟩

theorem not_good_none {script : Script} {b : Unbound} : ¬ Good script b none := by
  rintro ⟨st, s, heq, -⟩
  cases heq

/-- What is made newly is one more pointer of the clean-up. -/
theorem St.Accounted.push {script : Script} {s s' : St} (h : s.Accounted script) (new : List Res)
    (hpending : ((s'.pending script).map Prod.fst).Perm ((s.pending script).map Prod.fst ++ new))
    (hmade : s'.made = s.made ++ new) (hfreed : s'.freed = s.freed) (hheld : s'.held = s.held) :
    s'.Accounted script := by
  rw [St.Accounted, hmade, hfreed, hheld]
  refine (h.append_right new).trans ?_
  rw [List.append_assoc]
  exact hpending.symm.append_left _

/-- A step before the last failed. -/
theorem good_failed {script : Script} {b : Unbound} {st : Status} {s : St} (hst : st ≠ .ok)
    (hacct : s.Accounted script) (hfree : s.freeProtVersion = true)
    (hfull : s.fullRestoreFlag = true) (hpend : s.towerVector = false → s.pending script = []) :
    Good script b (some (st, s)) ↔
      b.protVersion = none ∧ s.inForce = .caller ∧
        (script.clearEndpoint = .ok ∨ s.binding.endpoint = none) ∧
        Restorable script (s.binding.timeout = b.timeout ∧ s.towerVector = false)
          (s.binding.object = b.object ∧ s.towerVector = false) ∧
        ∀ x ∈ s.pending script, x.2 = .ok := by
  rw [good_some, cleanUp_iff ⟨hacct, hfree, fun _ => hfull, fun h => absurd h hst, hpend⟩]
  simp only [hst, ne_eq, not_false_eq_true, true_implies]

theorem restorable_made (script : Script) : Restorable script False False ↔
    script.restoreTimeout = .ok ∧ script.restoreObject = .ok := by
  by_cases h : script.restoreTimeout = .ok <;> simp [Restorable, h]

/-- The two calls that restore the binding succeed. -/
def Script.restores (script : Script) : Prop :=
  script.restoreTimeout = .ok ∧ script.restoreObject = .ok

/-- After the pick: what was made can be freed, and where a step fails the endpoint of the binding,
if there is one, can be cleared. -/
def Script.usesTower (script : Script) : Prop :=
  if script.flrsToAddr ≠ .ok then script.clearEndpoint = .ok
  else
    script.addrFree = .ok ∧
      if script.inqEndpoint ≠ .ok then script.clearEndpoint = .ok
      else
        script.stringFree = .ok ∧
          if script.reset ≠ .ok then script.clearEndpoint = .ok
          else script.setEndpoint = .ok → script.changedToServer ≠ .ok → script.clearEndpoint = .ok

/-- The state in which the mapper has answered. -/
structure Answered (script : Script) (s : St) : Prop where
  accounted : s.Accounted script
  freeProtVersion : s.freeProtVersion = true
  fullRestoreFlag : s.fullRestoreFlag = true
  mapTower : s.mapTower = true
  towerVector : s.towerVector = true
  towerAddr : s.towerAddr = false
  endpoint : s.endpoint = none
  bound : s.binding.endpoint ≠ none

theorem useTower_iff {script : Script} {b : Unbound} {s : St} {e : ℕ} (h : Answered script s)
    (he : e ∈ script.offered) :
    Good script b (some (useTower script e s)) ↔
      b.protVersion = none ∧ s.inForce = .caller ∧ script.restores ∧
        script.towerFree = .ok ∧ script.towerRefVecFree = .ok ∧ script.usesTower := by
  obtain ⟨hacct, hfree, hfull, hmap, hvec, haddr, hend, hbound⟩ := h
  -- with the address, and with the endpoint
  have hacct₁ : ({ s with towerAddr := true, made := s.made ++ [.towerAddr] } : St).Accounted
      script :=
    hacct.push [.towerAddr] (by simp [St.pending, hmap, hvec, haddr, hend]) rfl rfl rfl
  have hacct₂ : ∀ (b' : Binding) (full : Bool), ({ s with
      binding := b', fullRestoreFlag := full, towerAddr := true, endpoint := some e,
      made := s.made ++ [.towerAddr] ++ [.endpoint] } : St).Accounted script :=
    fun _ _ => hacct₁.push [.endpoint] (by simp [St.pending, hmap, hvec, hend]) rfl rfl rfl
  by_cases hflrs : script.flrsToAddr = .ok
  swap
  · simp only [useTower, hflrs, ne_eq, not_false_eq_true, ↓reduceIte]
    rw [good_failed hflrs hacct hfree hfull (by simp [hvec])]
    simp [restorable_made, St.pending, hmap, hvec, haddr, hend, hbound, Script.restores,
      Script.usesTower, hflrs]
    tauto
  by_cases hinq : script.inqEndpoint = .ok
  swap
  · simp only [useTower, hflrs, hinq, ne_eq, not_true_eq_false, not_false_eq_true, ↓reduceIte]
    rw [good_failed hinq hacct₁ hfree hfull (by simp [hvec])]
    simp [restorable_made, St.pending, hmap, hvec, hend, hbound, Script.restores,
      Script.usesTower, hflrs, hinq]
    tauto
  by_cases hreset : script.reset = .ok
  swap
  · simp only [useTower, hflrs, hinq, hreset, ne_eq, not_true_eq_false, not_false_eq_true, ↓reduceIte]
    rw [good_failed hreset (hacct₂ s.binding _) hfree hfull (by simp [hvec])]
    simp [restorable_made, St.pending, hmap, hvec, hbound, Script.restores,
      Script.usesTower, hflrs, hinq, hreset]
    tauto
  by_cases hset : script.setEndpoint = .ok
  swap
  · simp only [useTower, hflrs, hinq, hreset, hset, ne_eq, not_true_eq_false, not_false_eq_true, ↓reduceIte]
    rw [good_failed hset (hacct₂ _ _) hfree hfull (by simp [hvec])]
    simp [restorable_made, St.pending, hmap, hvec, Script.restores,
      Script.usesTower, hflrs, hinq, hreset, hset]
  by_cases hchanged : script.changedToServer = .ok
  swap
  · simp only [useTower, hflrs, hinq, hreset, hset, hchanged, ne_eq, not_true_eq_false, not_false_eq_true,
      ↓reduceIte]
    rw [good_failed hchanged (hacct₂ _ _) hfree hfull (by simp [hvec])]
    simp [restorable_made, St.pending, hmap, hvec, Script.restores,
      Script.usesTower, hflrs, hinq, hreset, hset, hchanged]
    tauto
  simp only [useTower, hflrs, hinq, hreset, hset, hchanged, ne_eq, not_true_eq_false, ↓reduceIte]
  rw [good_some, cleanUp_iff ⟨hacct₂ _ _, hfree, fun h => absurd rfl h,
    fun _ => ⟨rfl, hvec, rfl, e, he, rfl⟩, by simp [hvec]⟩]
  simp [restorable_made, St.pending, hmap, hvec, Script.restores,
    Script.usesTower, hflrs, hinq, hreset, hset, hchanged]

theorem pickTower_iff {script : Script} {b : Unbound} {s : St} {j : ℕ} {towers : List ℕ}
    (h : Answered script s) (htowers : s.towers = some (j, towers))
    (hnum : s.numTowers = towers.length) (hlast : script.last = .answered towers .ok)
    (hwk : script.wkEndpoint.2 ≠ .ok) :
    Good script b (pickTower script s) ↔
      b.protVersion = none ∧ s.inForce = .caller ∧ script.restores ∧
        script.towerFree = .ok ∧ script.towerRefVecFree = .ok ∧ towers ≠ [] ∧
        script.usesTower := by
  by_cases hnil : towers = []
  · simp [pickTower, htowers, hnum, hnil, not_good_none]
  have hlt : script.random % towers.length < towers.length :=
    Nat.mod_lt _ (List.length_pos_iff.mpr hnil)
  have hpick : pickTower script s =
      some (useTower script towers[script.random % towers.length] s) := by
    simp [pickTower, htowers, hnum, hnil, List.getElem?_eq_getElem hlt]
  have hoffered : towers[script.random % towers.length] ∈ script.offered := by
    simp [Script.offered, hwk, hlast]
  rw [hpick, useTower_iff h hoffered]
  simp [hnil]

/-- How the calls of the mapper may end, and what has to succeed then. -/
def Script.lastUsed (script : Script) : Prop :=
  match script.last with
  | .mapException => False
  | .freeException _ => script.clearEndpoint = .ok
  | .answered towers st =>
    if st ≠ .ok then script.clearEndpoint = .ok else towers ≠ [] ∧ script.usesTower

/-- From the vector of towers on. -/
def Script.asksMapper (script : Script) : Prop :=
  script.restores ∧ script.towerRefVecFree = .ok ∧
    if script.towerFromRef ≠ .ok then script.clearEndpoint = .ok
    else script.towerFree = .ok ∧ script.lastUsed

/-- The state in which the binding leads to the mapper, nothing is made yet, and the caller's
allocation routines are in force. -/
structure ToMapper (s : St) : Prop where
  made : s.made = []
  freed : s.freed = []
  towers : s.towers = none
  inForce : s.inForce = .caller
  freeProtVersion : s.freeProtVersion = true
  fullRestoreFlag : s.fullRestoreFlag = true
  mapTower : s.mapTower = false
  towerVector : s.towerVector = false
  towerAddr : s.towerAddr = false
  endpoint : s.endpoint = none

theorem ToMapper.accounted {s : St} (h : ToMapper s) (script : Script) : s.Accounted script := by
  simp [St.Accounted, St.held, St.pending, h.made, h.freed, h.towers, h.mapTower, h.towerVector,
    h.towerAddr, h.endpoint]

theorem ToMapper.pending {s : St} (h : ToMapper s) (script : Script) : s.pending script = [] := by
  simp [St.pending, h.mapTower, h.towerVector, h.towerAddr, h.endpoint]

/-- A step fails before anything is made. -/
theorem good_failed_early {script : Script} {b : Unbound} {st : Status} {s : St} (hst : st ≠ .ok)
    (h : ToMapper s) : Good script b (some (st, s)) ↔
      b.protVersion = none ∧ (script.clearEndpoint = .ok ∨ s.binding.endpoint = none) ∧
        Restorable script (s.binding.timeout = b.timeout) (s.binding.object = b.object) := by
  rw [good_failed hst (h.accounted script) h.freeProtVersion h.fullRestoreFlag
    fun _ => h.pending script]
  simp [h.inForce, h.towerVector, h.pending script]

theorem askMapper_iff {script : Script} {b : Unbound} {s : St} (h : ToMapper s)
    (hbound : s.binding.endpoint ≠ none) (hwk : script.wkEndpoint.2 ≠ .ok) :
    Good script b (askMapper script s) ↔
      b.protVersion = none ∧
        if script.towerRefVec ≠ .ok then
          script.clearEndpoint = .ok ∧
            Restorable script (s.binding.timeout = b.timeout) (s.binding.object = b.object)
        else script.asksMapper := by
  by_cases hvec : script.towerRefVec = .ok
  swap
  · simp only [askMapper, hvec, ne_eq, not_false_eq_true, ↓reduceIte]
    rw [good_failed_early hvec h]
    simp [hbound]
  have hacct := h.accounted script
  have hacct₁ : ({ s with towerVector := true, made := s.made ++ [.towerVector] } : St).Accounted
      script := by
    refine hacct.push [.towerVector] ?_ rfl rfl rfl
    simp [St.pending, h.mapTower, h.towerVector, h.towerAddr, h.endpoint]
  have hacct₂ : ({ s with
      towerVector := true, mapTower := true,
      made := s.made ++ [.towerVector] ++ [.mapTower] } : St).Accounted script := by
    refine hacct₁.push [.mapTower] ?_ rfl rfl rfl
    simp only [St.pending, h.mapTower, h.towerAddr, h.endpoint]
    exact List.Perm.swap _ _ _
  by_cases hfrom : script.towerFromRef = .ok
  swap
  · simp only [askMapper, hvec, hfrom, ne_eq, not_true_eq_false, not_false_eq_true, ↓reduceIte]
    rw [good_failed hfrom hacct₁ h.freeProtVersion h.fullRestoreFlag (by simp)]
    simp [restorable_made, St.pending, h.mapTower, h.towerAddr, h.endpoint, h.inForce, hbound,
      Script.asksMapper, Script.restores, hfrom]
    tauto
  obtain ⟨hst, hacct₃, hbind, hpend, hmap, htv, haddr, hend, hfull, hfree, hforce, htowers⟩ :=
    lookUp_spec script script.last script.more 1 _ hacct₂ h.towers
  simp only [askMapper, hvec, hfrom, ne_eq, not_true_eq_false, ↓reduceIte]
  generalize lookUp script.last script.more 1 _ = out at *
  -- the loop has not touched what is to be freed at the end
  have hpend' : out.2.pending script =
      [(.mapTower, script.towerFree), (.towerVector, script.towerRefVecFree)] := by
    rw [hpend]
    simp [St.pending, h.towerAddr, h.endpoint]
  -- an answer that is no success
  have hfailed : out.1 ≠ .ok → (Good script b (some (out.1, out.2)) ↔ b.protVersion = none ∧
      out.2.inForce = .caller ∧ script.clearEndpoint = .ok ∧ script.restores ∧
        script.towerFree = .ok ∧ script.towerRefVecFree = .ok) := by
    intro hne
    rw [good_failed hne hacct₃ (hfree.trans h.freeProtVersion) (hfull.trans h.fullRestoreFlag)
      (by simp [htv])]
    simp [hpend', htv, hbind, hbound, restorable_made, Script.restores]
  have hforce' : script.last ≠ .mapException → out.2.inForce = .caller := by
    intro hne
    rw [hforce, if_neg hne]
    exact h.inForce
  rcases hlast : script.last with _ | towers | ⟨towers, st⟩
  · have hne : out.1 ≠ .ok := by simp [hst, hlast, Last.status]
    have hep : out.2.inForce = .ep := by simp [hforce, hlast]
    rw [if_pos hne, hfailed hne]
    simp [hep, Script.asksMapper, hfrom, Script.lastUsed, hlast]
  · have hne : out.1 ≠ .ok := by simp [hst, hlast, Last.status]
    rw [if_pos hne, hfailed hne, hforce' (by simp [hlast])]
    simp only [Script.asksMapper, hfrom, Script.lastUsed, hlast, ne_eq, not_true_eq_false,
      ↓reduceIte]
    tauto
  · have hst' : out.1 = st := by simp [hst, hlast, Last.status]
    by_cases hok : st = .ok
    · subst hok
      obtain ⟨⟨j, htw⟩, hnum⟩ := htowers towers .ok hlast
      have hanswered : Answered script out.2 :=
        ⟨hacct₃, hfree.trans h.freeProtVersion, hfull.trans h.fullRestoreFlag, hmap, htv,
          haddr.trans h.towerAddr, hend.trans h.endpoint, by rw [hbind]; exact hbound⟩
      rw [if_neg (not_not.mpr hst'), pickTower_iff hanswered htw hnum hlast hwk, hforce' (by simp [hlast])]
      simp only [Script.asksMapper, hfrom, Script.lastUsed, hlast, ne_eq, not_true_eq_false,
        ↓reduceIte]
      tauto
    · have hne : out.1 ≠ .ok := by rw [hst']; exact hok
      rw [if_pos hne, hfailed hne, hforce' (by simp [hlast])]
      simp only [Script.asksMapper, hfrom, Script.lastUsed, hlast, hok, ne_eq, not_true_eq_false,
        not_false_eq_true, ↓reduceIte]
      tauto

/-- With the mapper's endpoint in the binding: `timeoutSame` and `objectSame` say that nothing was
changed by the timeout and the object of the call to the mapper. -/
def Script.leadsToMapper (script : Script) (timeoutSame objectSame : Prop) : Prop :=
  if script.inqProtVersion.2 ≠ .ok ∨ script.protVersionAlloc ≠ .ok ∨ script.changedToMapper ≠ .ok ∨
      script.towerRefVec ≠ .ok then
    script.clearEndpoint = .ok ∧ Restorable script timeoutSame objectSame
  else script.asksMapper

theorem giveVersion_iff {script : Script} {b : Unbound} {s : St} (h : ToMapper s)
    (hbound : s.binding.endpoint ≠ none) (hprot : s.binding.protVersion = b.protVersion)
    (hwk : script.wkEndpoint.2 ≠ .ok) :
    Good script b (giveVersion script s) ↔
      b.protVersion = none ∧ script.leadsToMapper (s.binding.timeout = b.timeout)
        (s.binding.object = b.object) := by
  by_cases hnone : b.protVersion = none
  swap
  · -- a version of its own is lost on every way through the clean-up
    have hsome : s.binding.protVersion ≠ none := by rwa [hprot]
    simp only [giveVersion, hsome, ↓reduceIte, changeToMapper, hnone, false_and, iff_false]
    by_cases hchanged : script.changedToMapper = .ok
    · rw [if_neg (by simpa using hchanged)]
      have hmapper : ToMapper { s with binding := { s.binding with hasEndpoint := true } } :=
        ⟨h.1, h.2, h.3, h.4, h.5, h.6, h.7, h.8, h.9, h.10⟩
      exact fun hgood => hnone ((askMapper_iff hmapper (by exact hbound) hwk).mp hgood).1
    · rw [if_pos hchanged, good_failed_early hchanged h]
      exact fun h => hnone h.1
  rw [hnone] at hprot
  simp only [giveVersion, hprot, ↓reduceIte, hnone, true_and]
  by_cases hinq : script.inqProtVersion.2 = .ok
  swap
  · simp only [hinq, ne_eq, not_false_eq_true, ↓reduceIte]
    rw [good_failed_early hinq h]
    simp [Script.leadsToMapper, hinq, hnone, hbound]
  by_cases halloc : script.protVersionAlloc = .ok
  swap
  · simp only [hinq, halloc, ne_eq, not_true_eq_false, not_false_eq_true, ↓reduceIte]
    rw [good_failed_early halloc h]
    simp [Script.leadsToMapper, halloc, hnone, hbound]
  have hmapper : ∀ b' : Binding, ToMapper { s with binding := b', freeProtVersion := true } :=
    fun _ => ⟨h.1, h.2, h.3, h.4, rfl, h.6, h.7, h.8, h.9, h.10⟩
  simp only [hinq, halloc, ne_eq, not_true_eq_false, ↓reduceIte, changeToMapper]
  by_cases hchanged : script.changedToMapper = .ok
  swap
  · simp only [hchanged, not_false_eq_true, ↓reduceIte]
    rw [good_failed_early hchanged (hmapper _)]
    simp [Script.leadsToMapper, hchanged, hnone, hbound]
  simp only [hchanged, not_true_eq_false, ↓reduceIte]
  rw [askMapper_iff (hmapper _) (by exact hbound) hwk]
  simp [Script.leadsToMapper, hinq, halloc, hchanged, hnone]

/-- The outcomes and the binding for which the resolution puts everything back. -/
def Reverts (script : Script) (b : Unbound) : Prop :=
  if script.wkEndpoint.2 = .ok then script.changed = .ok
  else if script.wkEndpoint.2 ≠ .endpointNotFound ∨ script.inqObject ≠ .ok ∨
      script.inqTimeout ≠ .ok then True
  else
    b.protVersion = none ∧
      if script.setObject ≠ .ok then True
      else if script.setTimeout ≠ .ok then Restorable script True (nilUuid = b.object)
      else if script.mapperEndpoint.2 ≠ .ok then
        Restorable script (defaultTimeout = b.timeout) (nilUuid = b.object)
      else script.leadsToMapper (defaultTimeout = b.timeout) (nilUuid = b.object)

theorem bindToMapper_iff {script : Script} {b : Unbound} (hwk : script.wkEndpoint.2 ≠ .ok) :
    Good script b (bindToMapper script { binding := b.binding }) ↔
      b.protVersion = none ∧
        if script.setObject ≠ .ok then True
        else if script.setTimeout ≠ .ok then Restorable script True (nilUuid = b.object)
        else if script.mapperEndpoint.2 ≠ .ok then
          Restorable script (defaultTimeout = b.timeout) (nilUuid = b.object)
        else script.leadsToMapper (defaultTimeout = b.timeout) (nilUuid = b.object) := by
  have hmapper : ∀ b' : Binding, ToMapper { binding := b' } :=
    fun _ => ⟨rfl, rfl, rfl, rfl, rfl, rfl, rfl, rfl, rfl, rfl⟩
  by_cases hobject : script.setObject = .ok
  swap
  · simp only [bindToMapper, hobject, ne_eq, not_false_eq_true, ↓reduceIte]
    rw [good_failed_early hobject (hmapper _)]
    simp [Unbound.binding, Restorable]
  by_cases htimeout : script.setTimeout = .ok
  swap
  · simp only [bindToMapper, hobject, htimeout, ne_eq, not_true_eq_false, not_false_eq_true,
      ↓reduceIte, St.putObject]
    rw [good_failed_early htimeout (hmapper _)]
    simp [Unbound.binding]
  by_cases hmap : script.mapperEndpoint.2 = .ok
  swap
  · simp only [bindToMapper, hobject, htimeout, hmap, ne_eq, not_true_eq_false, not_false_eq_true,
      ↓reduceIte, St.putObject, St.putTimeout]
    rw [good_failed_early hmap (hmapper _)]
    simp [Unbound.binding]
  simp only [bindToMapper, hobject, htimeout, hmap, ne_eq, not_true_eq_false, ↓reduceIte,
    St.putObject, St.putTimeout]
  exact giveVersion_iff (hmapper _) (by simp) rfl hwk

/-- The resolution of an endpoint is transactional exactly for these bindings and outcomes. -/
theorem transactional_iff (script : Script) (b : Unbound) :
    Transactional script b ↔ Reverts script b := by
  have hunbound : epResolveBinding script b.binding = epGetEndpoint script b.binding := rfl
  rw [Transactional, hunbound, Reverts]
  by_cases hwk : script.wkEndpoint.2 = .ok
  · by_cases hchanged : script.changed = .ok
    · simp only [epGetEndpoint, hwk, hchanged, ne_eq, not_true_eq_false, ↓reduceIte,
        Option.some.injEq, exists_eq_left', iff_true]
      exact ⟨rfl, rfl, rfl, rfl, fun h => absurd rfl h,
        fun _ => ⟨rfl, script.wkEndpoint.1, by simp [Script.offered, hwk], rfl⟩, List.Perm.refl _,
        rfl⟩
    · simp only [epGetEndpoint, hwk, hchanged, ne_eq, not_false_eq_true, ↓reduceIte,
        Option.some.injEq, exists_eq_left', iff_false]
      intro h
      have := (h.failure hchanged).1
      simp at this
  · have hsame : ∀ st : Status, st ≠ .ok → Resolved script b (st, { binding := b.binding }) :=
      fun st hst => ⟨rfl, rfl, rfl, rfl, fun _ => ⟨rfl, rfl⟩, fun h => absurd h hst,
        List.Perm.refl _, rfl⟩
    by_cases hfound : script.wkEndpoint.2 = .endpointNotFound
    swap
    · simpa [epGetEndpoint, hwk, hfound] using hsame _ hwk
    by_cases hobject : script.inqObject = .ok
    swap
    · simpa [epGetEndpoint, hfound, hobject] using hsame _ hobject
    by_cases htimeout : script.inqTimeout = .ok
    swap
    · simpa [epGetEndpoint, hfound, hobject, htimeout] using hsame _ htimeout
    have hgood : (∃ out, epGetEndpoint script b.binding = some out ∧ Resolved script b out) ↔
        Good script b (bindToMapper script { binding := b.binding }) := by
      simp only [epGetEndpoint, hfound, hobject, htimeout, ne_eq, not_true_eq_false, ↓reduceIte,
        reduceCtorEq]
      rcases bindToMapper script { binding := b.binding } with _ | ⟨st, s⟩
      · simp [not_good_none]
      · rw [good_some]
        simp only [Option.map_some, Option.some.injEq, exists_eq_left']
        rfl
    rw [hgood, bindToMapper_iff hwk]
    simp only [hfound, hobject, htimeout, ne_eq, not_true_eq_false, or_self, ↓reduceIte,
      reduceCtorEq]

/-- The mapper has one tower, and every step succeeds. -/
def oneTower : Script where
  wkEndpoint := (0, .endpointNotFound)
  last := .answered [1024] .ok

/-- A binding made by a name service import, with a protocol version of its own. -/
theorem not_transactional : ¬ ∀ script b, Transactional script b := by
  intro h
  obtain ⟨out, heq, hout⟩ := h oneTower ⟨0, 5, none, some 5⟩
  have hprot := hout.protVersion
  have hlost : (epResolveBinding oneTower (Unbound.binding ⟨0, 5, none, some 5⟩)).map
      (fun out => out.2.binding.protVersion) = some none := by decide
  rw [heq, Option.map_some, Option.some.injEq] at hlost
  rw [hlost] at hprot
  cases hprot

end Resolve
