/-
Full pointers in the calls of a process (ndrui2.c, ernodtbl.c).

The node number of a full pointer is received and turned into an address by the node table of the
call.  A large number is replaced by the next value of a counter that all calls share.

* `fullPointers_of_along` — in a run where no replacement meets a number of the call, full
  pointers keep their identity;
* `not_fullPointers` — a replacement that meets a number received next.
-/
import FreeDce.Idl.NodeTableRun

namespace Idl

namespace Nodes

/-! ### Unmarshalling a full pointer -/

/-- A full pointer that has been received: its referent id, the number in the table, the address,
and whether it was reported as already unmarshalled. -/
structure Received where
  id : ℕ
  num : ℕ
  ptr : ℕ
  unmarshalled : Bool
deriving DecidableEq

/-- The full pointer part of `rpc_ss_ndr_unmar_pointee`. -/
def unmarPointee (s : Session) (id num alloc : ℕ) : Option (Session × Received) := do
  let (s, a) ← s.returnPointerToNode num alloc
  some (s, ⟨id, a.num, a.ptr, a.unmarshalled⟩)

/-- A full pointer to a non-null pointee.  For a non-fixed array or a conformant struct
`rpc_ss_ndr_unmar_pointee_desc` comes first; it leaves the reworked number in the pointer. -/
def unmarFullPointer (s : Session) (id : ℕ) (nonFixed : Bool) (alloc : ℕ) :
    Option (Session × Received) :=
  if nonFixed then do
    let (s, a) ← s.inquirePointerToNode id
    if a.unmarshalled then some (s, ⟨id, a.num, a.ptr, true⟩)
    else unmarPointee s id a.num alloc
  else unmarPointee s id id alloc

/-- The call that a process is in, and what it has received, the last pointer first. -/
structure Process where
  session : Session
  received : List Received

inductive ProcessOp
  /-- A call begins with a new node table. -/
  | newCall (reflect : Bool)
  | registerNode (ptr : ℕ) (marshalling : Bool)
  | unmarFullPointer (id : ℕ) (nonFixed : Bool) (alloc : ℕ)
deriving DecidableEq

/-- `max_ptr` is 1 when the process starts. -/
def Process.init : Process := ⟨.init 1 false, []⟩

def Process.step (s : Process) : ProcessOp → Option Process
  | .newCall reflect => some ⟨.init s.session.maxPtr reflect, []⟩
  | .registerNode ptr marshalling =>
    (Nodes.step s.session (.registerNode ptr marshalling)).map fun session => ⟨session, s.received⟩
  | .unmarFullPointer id nonFixed alloc =>
    (Nodes.unmarFullPointer s.session id nonFixed alloc).map fun p => ⟨p.1, p.2 :: s.received⟩

/-! ### Identity -/

/-- The full pointers of a call keep their identity. -/
structure FullPointers (received : List Received) : Prop where
  distinct : ∀ r ∈ received, ∀ r' ∈ received, r.id ≠ r'.id → r.ptr ≠ r'.ptr
  unseen : ∀ r earlier, (r :: earlier) <:+ received → (∀ r' ∈ earlier, r'.id ≠ r.id) →
    r.unmarshalled = false
  same : ∀ r ∈ received, ∀ r' ∈ received, r.id = r'.id → r.id < 2 ^ 16 → r.ptr = r'.ptr

/-- Ids that `rework_pointer` replaces. -/
def Large (id : ℕ) : Prop := 0x10000 ≤ id ∧ id ≤ 0xffff0000

instance (id : ℕ) : Decidable (Large id) := inferInstanceAs (Decidable (_ ∧ _))

theorem reworkPointer_of_not_large {id : ℕ} (maxPtr : ℕ) (h : ¬ Large id) :
    reworkPointer maxPtr id = some (maxPtr, id) := by
  rw [reworkPointer]
  split
  · rfl
  · split
    · rfl
    · rename_i hhigh
      exact if_pos (by rw [Large] at h; omega)

theorem reworkPointer_of_large {id maxPtr : ℕ} (h : Large id) (hlt : maxPtr + 1 < 2 ^ 31) :
    reworkPointer maxPtr id = some (maxPtr + 1, maxPtr + 1) := by
  obtain ⟨hle, hhigh⟩ := h
  rw [reworkPointer, if_neg (by omega), if_neg (by omega), if_neg (by omega), if_pos hlt]

/-- The counter values that replace a large id: a second one if the pointer is looked at twice
and the first one is large itself. -/
def replacements (maxPtr : ℕ) (nonFixed : Bool) : List ℕ :=
  if nonFixed && decide (Large (maxPtr + 1)) then [maxPtr + 1, maxPtr + 2] else [maxPtr + 1]

/-- What the peer and the allocator promise. -/
def Process.Allowed (s : Process) : ProcessOp → Prop
  | .unmarFullPointer id _ alloc =>
    (0 < id ∧ id < 2 ^ 32) ∧ alloc ≠ 0 ∧ liveNumber s.session.log alloc = none
  | .newCall _ => True
  | .registerNode .. => True

/-- The condition on a step: the replacement of a large id is not in the table, another id has not
been a replacement for a different one, and no number exceeds its type. -/
def Process.Apart (s : Process) : ProcessOp → Prop
  | .newCall _ => True
  | .registerNode ptr marshalling => InOrder s.session.log (.registerNode ptr marshalling)
  | .unmarFullPointer id nonFixed _ =>
    if Large id then
      ∀ num ∈ replacements s.session.maxPtr nonFixed,
        num < 2 ^ 31 ∧ lastRegistered s.session.log num = 0
    else ∀ r ∈ s.received, r.num = id → r.id = id

instance (s : Process) : (op : ProcessOp) → Decidable (s.Allowed op)
  | .unmarFullPointer .. => inferInstanceAs (Decidable ((_ ∧ _) ∧ _ ∧ _))
  | .newCall _ => .isTrue trivial
  | .registerNode .. => .isTrue trivial

instance (s : Process) : (op : ProcessOp) → Decidable (s.Apart op)
  | .newCall _ => .isTrue trivial
  | .registerNode ptr marshalling =>
    inferInstanceAs (Decidable (InOrder s.session.log (.registerNode ptr marshalling)))
  | .unmarFullPointer id nonFixed _ =>
    inferInstanceAs (Decidable (if Large id then
      ∀ num ∈ replacements s.session.maxPtr nonFixed,
        num < 2 ^ 31 ∧ lastRegistered s.session.log num = 0
    else ∀ r ∈ s.received, r.num = id → r.id = id))

/-! ### The invariant -/

/-- The numbers of the pointers received tell their ids apart, and are in the table. -/
structure ProcessInv (s : Process) : Prop where
  inv : Inv s.session.tab s.session.log
  unregistered : unregisteredNumbers s.session.log = []
  registered : ∀ r ∈ s.received, lastRegistered s.session.log r.num = r.ptr ∧ r.ptr ≠ 0
  kept : ∀ r ∈ s.received, ¬ Large r.id → r.num = r.id
  apart : ∀ r ∈ s.received, ∀ r' ∈ s.received, r.num = r'.num → r.id = r'.id
  presented : ∀ num, wasUnmarshalled s.session.log num = true → ∃ r ∈ s.received, r.num = num
  unseen : ∀ r earlier, (r :: earlier) <:+ s.received → (∀ r' ∈ earlier, r'.id ≠ r.id) →
    r.unmarshalled = false

theorem ProcessInv.newCall (maxPtr : ℕ) (reflect : Bool) :
    ProcessInv ⟨.init maxPtr reflect, []⟩ where
  inv := Inv.init reflect
  unregistered := rfl
  registered _ h := absurd h List.not_mem_nil
  kept _ h := absurd h List.not_mem_nil
  apart _ h := absurd h List.not_mem_nil
  presented _ h := absurd h Bool.false_ne_true
  unseen r earlier h := absurd (List.suffix_nil.mp h) (List.cons_ne_nil r earlier)

variable {s : Process} {session' : Session} {r : Received}

/-- The identity of the pointers from the numbers. -/
theorem ProcessInv.fullPointers (h : ProcessInv s) : FullPointers s.received where
  distinct r hr r' hr' hne heq := by
    obtain ⟨hlast, hptr⟩ := h.registered r hr
    obtain ⟨hlast', hptr'⟩ := h.registered r' hr'
    have hmem : ∀ num, num ∉ unregisteredNumbers s.session.log := by
      rw [h.unregistered]
      exact fun num => List.not_mem_nil
    have hl := h.inv.known r.num (hlast.trans_ne hptr) (hmem _)
    have hl' := h.inv.known r'.num (hlast'.trans_ne hptr') (hmem _)
    rw [hlast, heq, ← hlast', hl'] at hl
    exact hne (h.apart r hr r' hr' (Option.some_inj.mp hl).symm)
  unseen := h.unseen
  same r hr r' hr' hid hlt := by
    have hsmall : ¬ Large r.id := fun hlarge => absurd hlarge.1 (not_le.mpr hlt)
    rw [← (h.registered r hr).1, ← (h.registered r' hr').1, h.kept r hr hsmall,
      h.kept r' hr' (hid ▸ hsmall), hid]

/-- One more pointer is received. -/
theorem ProcessInv.receive (h : ProcessInv s) (hinv : Inv session'.tab session'.log)
    (hun : unregisteredNumbers session'.log = [])
    (hlast : ∀ num, lastRegistered s.session.log num ≠ 0 →
      lastRegistered session'.log num = lastRegistered s.session.log num)
    (hpresented : ∀ num, wasUnmarshalled session'.log num = true →
      wasUnmarshalled s.session.log num = true ∨ num = r.num)
    (hr : lastRegistered session'.log r.num = r.ptr) (hptr : r.ptr ≠ 0)
    (hkept : ¬ Large r.id → r.num = r.id)
    (hapart : ∀ r' ∈ s.received, r'.num = r.num → r'.id = r.id)
    (hflag : r.unmarshalled = true → wasUnmarshalled s.session.log r.num = true) :
    ProcessInv ⟨session', r :: s.received⟩ where
  inv := hinv
  unregistered := hun
  registered r' hr' := by
    rcases List.mem_cons.mp hr' with rfl | hr'
    · exact ⟨hr, hptr⟩
    · obtain ⟨hlast', hptr'⟩ := h.registered r' hr'
      exact ⟨(hlast _ (hlast'.trans_ne hptr')).trans hlast', hptr'⟩
  kept r' hr' := by
    rcases List.mem_cons.mp hr' with rfl | hr'
    · exact hkept
    · exact h.kept r' hr'
  apart r₁ hr₁ r₂ hr₂ heq := by
    rcases List.mem_cons.mp hr₁ with rfl | hr₁'
    · rcases List.mem_cons.mp hr₂ with rfl | hr₂'
      · rfl
      · exact (hapart r₂ hr₂' heq.symm).symm
    · rcases List.mem_cons.mp hr₂ with rfl | hr₂'
      · exact hapart r₁ hr₁' heq
      · exact h.apart r₁ hr₁' r₂ hr₂' heq
  presented num hu := by
    rcases hpresented num hu with hu | rfl
    · obtain ⟨r', hr', heq⟩ := h.presented num hu
      exact ⟨r', List.mem_cons_of_mem _ hr', heq⟩
    · exact ⟨r, List.mem_cons_self, rfl⟩
  unseen r' earlier hsuffix hne := by
    rcases List.suffix_cons_iff.mp hsuffix with heq | hsuffix
    · obtain ⟨rfl, rfl⟩ := List.cons.inj heq
      -- an id that was not seen has no number in the table that was presented
      by_contra htrue
      rw [Bool.not_eq_false] at htrue
      obtain ⟨r₁, hr₁, hnum⟩ := h.presented _ (hflag htrue)
      exact hne r₁ hr₁ (hapart r₁ hr₁ hnum)
    · exact h.unseen r' earlier hsuffix hne

theorem ProcessInv.not_mem (h : ProcessInv s) (num : ℕ) :
    num ∉ unregisteredNumbers s.session.log := by
  rw [h.unregistered]
  exact List.not_mem_nil

/-! ### Steps -/

theorem wasUnmarshalled_presented {log : List Event} {num num' ptr : ℕ} {flag : Bool}
    (h : wasUnmarshalled (.presented num ptr flag :: log) num' = true) :
    wasUnmarshalled log num' = true ∨ num' = num := by
  have h' : (num' = num && ptr ≠ 0 || wasUnmarshalled log num') = true := h
  rw [Bool.or_eq_true, Bool.and_eq_true, decide_eq_true_eq] at h'
  exact h'.symm.imp id And.left

/-- The node of a number is returned: `session` is the one of the call, perhaps after an inquiry. -/
theorem ProcessInv.unmarPointee (h : ProcessInv s) {session : Session} {id num num' maxPtr' alloc : ℕ}
    (hinv : Inv session.tab session.log)
    (hlast : lastRegistered session.log = lastRegistered s.session.log)
    (hlive : liveNumber session.log = liveNumber s.session.log)
    (hun : unregisteredNumbers session.log = [])
    (hpresented : wasUnmarshalled session.log = wasUnmarshalled s.session.log)
    (hrework : reworkPointer session.maxPtr num = some (maxPtr', num')) (hpos : 0 < num')
    (hlt : num' < 2 ^ 32) (halloc : alloc ≠ 0) (hfresh : liveNumber s.session.log alloc = none)
    (hkept : ¬ Large id → num' = id)
    (hapart : ∀ r' ∈ s.received, r'.num = num' → r'.id = id) :
    ∃ session' r, Nodes.unmarPointee session id num alloc = some (session', r) ∧
      ProcessInv ⟨session', r :: s.received⟩ := by
  have hmem : num' ∉ unregisteredNumbers session.log := by
    rw [hun]
    exact List.not_mem_nil
  rw [← hlive] at hfresh
  rw [Nodes.unmarPointee, Session.returnPointerToNode]
  by_cases h0 : lastRegistered session.log num' = 0
  · obtain ⟨tab', hrun, h'⟩ :=
      hinv.returnPointerToNode_new hrework hpos hlt h0 halloc hfresh
    rw [hrun]
    refine ⟨_, _, rfl, h.receive h' hun ?_ ?_ (if_pos rfl) halloc hkept hapart nofun⟩
    · intro num'' hne
      rw [← hlast] at hne ⊢
      refine if_neg ?_
      rintro rfl
      exact hne h0
    · intro num'' hu
      rw [← hpresented]
      have hu' : wasUnmarshalled
          (.presented num' alloc false :: .registered num' alloc :: session.log) num'' = true := hu
      have hcases := wasUnmarshalled_presented hu'
      exact hcases
  · obtain ⟨tab', hrun, h'⟩ := hinv.returnPointerToNode_old alloc hrework hmem h0
    rw [hrun]
    refine ⟨_, _, rfl, h.receive h' hun ?_ ?_ rfl h0 hkept hapart ?_⟩
    · intro num'' _
      show lastRegistered session.log num'' = _
      rw [hlast]
    · intro num'' hu
      rw [← hpresented]
      exact wasUnmarshalled_presented hu
    · rw [← hpresented]
      exact fun hu => hu

/-- A full pointer is unmarshalled.  `num₁` is the number after the first look at it and `num₂`
after a second one. -/
theorem ProcessInv.unmarFullPointer (h : ProcessInv s) {id num₁ num₂ max₁ max₂ alloc : ℕ}
    (nonFixed : Bool) (hfirst : reworkPointer s.session.maxPtr id = some (max₁, num₁))
    (hsecond : nonFixed = true → reworkPointer max₁ num₁ = some (max₂, num₂))
    (hpos : 0 < num₁ ∧ num₁ < 2 ^ 32) (hpos₂ : nonFixed = true → 0 < num₂ ∧ num₂ < 2 ^ 32)
    (halloc : alloc ≠ 0) (hfresh : liveNumber s.session.log alloc = none)
    (hkept : ¬ Large id → num₁ = id ∧ num₂ = id)
    (hapart : ∀ r' ∈ s.received, r'.num = num₁ → r'.id = id)
    (hapart₂ : nonFixed = true → ∀ r' ∈ s.received, r'.num = num₂ → r'.id = id) :
    ∃ session' r, Nodes.unmarFullPointer s.session id nonFixed alloc = some (session', r) ∧
      ProcessInv ⟨session', r :: s.received⟩ := by
  rw [Nodes.unmarFullPointer]
  cases nonFixed with
  | false =>
    exact h.unmarPointee h.inv rfl rfl h.unregistered rfl hfirst hpos.1 hpos.2 halloc hfresh
      (fun hl => (hkept hl).1) hapart
  | true =>
    obtain ⟨hrun, h'⟩ := h.inv.inquirePointerToNode hfirst (h.not_mem num₁)
    rw [if_pos rfl, Session.inquirePointerToNode, hrun]
    by_cases hu : wasUnmarshalled s.session.log num₁ = true
    · have h0 := h.inv.marked num₁ (Or.inr hu)
      show ∃ session' r, (if wasUnmarshalled s.session.log num₁ = true then _ else _)
        = some (session', r) ∧ _
      rw [if_pos hu]
      exact ⟨_, _, rfl, h.receive h' h.unregistered (fun _ _ => rfl) (fun _ => Or.inl) rfl h0
        (fun hl => (hkept hl).1) hapart fun _ => hu⟩
    · show ∃ session' r, (if wasUnmarshalled s.session.log num₁ = true then _ else _)
        = some (session', r) ∧ _
      rw [if_neg hu]
      exact h.unmarPointee h' rfl rfl h.unregistered rfl (hsecond rfl) (hpos₂ rfl).1 (hpos₂ rfl).2
        halloc hfresh (fun hl => (hkept hl).2) (hapart₂ rfl)

/-- Nodes registered for marshalling take nothing from the pointers received. -/
theorem ProcessInv.register (h : ProcessInv s) (hinv : Inv session'.tab session'.log)
    (hun : unregisteredNumbers session'.log = [])
    (hlast : ∀ num, lastRegistered s.session.log num ≠ 0 →
      lastRegistered session'.log num = lastRegistered s.session.log num)
    (hpresented : wasUnmarshalled session'.log = wasUnmarshalled s.session.log) :
    ProcessInv ⟨session', s.received⟩ where
  inv := hinv
  unregistered := hun
  registered r hr := by
    obtain ⟨hlast', hptr⟩ := h.registered r hr
    exact ⟨(hlast _ (hlast'.trans_ne hptr)).trans hlast', hptr⟩
  kept := h.kept
  apart := h.apart
  presented num hu := h.presented num (hpresented ▸ hu)
  unseen := h.unseen

theorem ProcessInv.registerNode (h : ProcessInv s) {ptr : ℕ} {marshalling : Bool}
    (hop : s.Apart (.registerNode ptr marshalling)) :
    ∃ s', s.step (.registerNode ptr marshalling) = some s' ∧ ProcessInv s' := by
  obtain ⟨session', hs', hinv, hun, hpresented, hlast⟩ := h.inv.registerNode hop
  refine ⟨⟨session', s.received⟩, ?_, h.register hinv (hun.trans h.unregistered) hlast hpresented⟩
  rw [Process.step, hs']
  rfl

/-- An id that is not replaced is its node's number. -/
theorem ProcessInv.unmarFullPointer_kept (h : ProcessInv s) {id alloc : ℕ} (nonFixed : Bool)
    (hlarge : ¬ Large id) (hid : 0 < id ∧ id < 2 ^ 32) (halloc : alloc ≠ 0)
    (hfresh : liveNumber s.session.log alloc = none)
    (hapart : ∀ r ∈ s.received, r.num = id → r.id = id) :
    ∃ session' r, Nodes.unmarFullPointer s.session id nonFixed alloc = some (session', r) ∧
      ProcessInv ⟨session', r :: s.received⟩ :=
  h.unmarFullPointer nonFixed (reworkPointer_of_not_large _ hlarge)
    (fun _ => reworkPointer_of_not_large _ hlarge) hid (fun _ => hid) halloc hfresh
    (fun _ => ⟨rfl, rfl⟩) hapart fun _ => hapart

/-- A large id is replaced by numbers that no pointer received has. -/
theorem ProcessInv.unmarFullPointer_replaced (h : ProcessInv s) {id alloc : ℕ} (nonFixed : Bool)
    (hlarge : Large id) (halloc : alloc ≠ 0) (hfresh : liveNumber s.session.log alloc = none)
    (hnew : ∀ num ∈ replacements s.session.maxPtr nonFixed,
      num < 2 ^ 31 ∧ lastRegistered s.session.log num = 0) :
    ∃ session' r, Nodes.unmarFullPointer s.session id nonFixed alloc = some (session', r) ∧
      ProcessInv ⟨session', r :: s.received⟩ := by
  have hapart : ∀ num, lastRegistered s.session.log num = 0 →
      ∀ r ∈ s.received, r.num = num → r.id = id := by
    rintro num h0 r hr rfl
    exact absurd ((h.registered r hr).1.symm.trans h0) (h.registered r hr).2
  have hmem : s.session.maxPtr + 1 ∈ replacements s.session.maxPtr nonFixed := by
    rw [replacements]
    split
    · exact List.mem_cons_self
    · exact List.mem_cons_self
  obtain ⟨hlt, h0⟩ := hnew _ hmem
  have hfirst := reworkPointer_of_large hlarge hlt
  have hpos : 0 < s.session.maxPtr + 1 ∧ s.session.maxPtr + 1 < 2 ^ 32 := by omega
  by_cases hagain : Large (s.session.maxPtr + 1)
  · cases nonFixed with
    | false =>
      have hsecond : false = true → reworkPointer (s.session.maxPtr + 1) (s.session.maxPtr + 1)
          = some (0, 0) := nofun
      exact h.unmarFullPointer false hfirst hsecond hpos nofun halloc hfresh (absurd hlarge)
        (hapart _ h0) nofun
    | true =>
      -- the replacement is replaced in its turn
      have hmem₂ : s.session.maxPtr + 2 ∈ replacements s.session.maxPtr true := by
        rw [replacements, if_pos (by rw [decide_eq_true hagain]; rfl)]
        exact List.mem_cons_of_mem _ List.mem_cons_self
      obtain ⟨hlt₂, h0₂⟩ := hnew _ hmem₂
      exact h.unmarFullPointer true hfirst (fun _ => reworkPointer_of_large hagain hlt₂) hpos
        (fun _ => ⟨Nat.succ_pos _, lt_trans hlt₂ (by decide)⟩) halloc hfresh (absurd hlarge)
        (hapart _ h0) fun _ => hapart _ h0₂
  · exact h.unmarFullPointer nonFixed hfirst (fun _ => reworkPointer_of_not_large _ hagain) hpos
      (fun _ => hpos) halloc hfresh (absurd hlarge) (hapart _ h0) fun _ => hapart _ h0

theorem process_step_inv {op : ProcessOp} (h : ProcessInv s) (hallowed : s.Allowed op)
    (hop : s.Apart op) : ∃ s', s.step op = some s' ∧ ProcessInv s' := by
  cases op with
  | newCall reflect => exact ⟨_, rfl, ProcessInv.newCall _ reflect⟩
  | registerNode ptr marshalling => exact h.registerNode hop
  | unmarFullPointer id nonFixed alloc =>
    obtain ⟨hid, halloc, hfresh⟩ := hallowed
    have hrun : ∃ session' r,
        Nodes.unmarFullPointer s.session id nonFixed alloc = some (session', r) ∧
          ProcessInv ⟨session', r :: s.received⟩ := by
      by_cases hlarge : Large id
      · exact h.unmarFullPointer_replaced nonFixed hlarge halloc hfresh ((if_pos hlarge).mp hop)
      · exact h.unmarFullPointer_kept nonFixed hlarge hid halloc hfresh ((if_neg hlarge).mp hop)
    obtain ⟨session', r, hrun, h'⟩ := hrun
    refine ⟨_, ?_, h'⟩
    rw [Process.step, hrun]
    rfl

/-- In a run of calls where each step keeps the replacements of large ids apart from the other
numbers of the call, the full pointers of each call keep their identity. -/
theorem fullPointers_of_along (ops : List ProcessOp)
    (hops : Runs.Along Process.step (fun s op => s.Allowed op ∧ s.Apart op) .init ops) :
    ∃ t, Runs.exec Process.step .init ops = some t ∧ FullPointers t.received := by
  obtain ⟨t, ht, h⟩ := Runs.exec_of_along (fun s op h hop => process_step_inv h hop.1 hop.2)
    (ProcessInv.newCall 1 false) hops
  exact ⟨t, ht, h.fullPointers⟩

/-- Two calls; the second one answers a request whose nodes are registered. -/
def apartOps : List ProcessOp :=
  [.newCall false, .unmarFullPointer 0x20000 true 32, .unmarFullPointer 1 false 8224,
    .newCall true, .registerNode 64 true, .registerNode 96 true, .unmarFullPointer 0x20004 false 128,
    .unmarFullPointer 1 false 4096, .unmarFullPointer 0x20004 true 160]

theorem fullPointers_of_along_apartOps :
    ∃ t, Runs.exec Process.step .init apartOps = some t ∧ FullPointers t.received :=
  fullPointers_of_along apartOps (by decide)

/-- The id `0x20000` is replaced by 2, which is the next id received. -/
def metOps : List ProcessOp :=
  [.newCall false, .unmarFullPointer 0x20000 false 32, .unmarFullPointer 2 false 64]

theorem not_fullPointers :
    ¬ ∀ ops : List ProcessOp, Runs.Along Process.step (fun s op => s.Allowed op) .init ops →
      ∃ t, Runs.exec Process.step .init ops = some t ∧ FullPointers t.received := by
  intro h
  obtain ⟨t, ht, hpointers⟩ := h metOps (by decide)
  have hreceived : (Runs.exec Process.step .init metOps).map Process.received
      = some [⟨2, 2, 32, true⟩, ⟨0x20000, 2, 32, false⟩] := by decide
  rw [ht, Option.map_some] at hreceived
  rw [Option.some_inj.mp hreceived] at hpointers
  exact hpointers.distinct _ List.mem_cons_self _ (List.mem_cons_of_mem _ List.mem_cons_self)
    (by decide) rfl

end Nodes

end Idl
