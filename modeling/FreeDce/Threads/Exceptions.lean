/-
Structured exceptions (dcethreads, exc_handling.h and exc_handling.c).

`run` executes a program the way the macros do: a `TRY` puts a buffer onto the thread's stack, an
exception is stored in the top buffer and control jumps to the frame that has that buffer, where
the flags of the frame decide what happens next.  `eval` is the meaning a reader expects, without
buffers or jumps.

* `run_matches` — from any stack a program does what `eval` says, and leaves the stack as it was;
* `runThread_eq` — a thread ends as `eval` says, and at every `ENDTRY` and in every handler the stack is
  the one that its `TRY` found.
-/
import Mathlib

namespace Exc

/-! ### Programs -/

inductive ExcKind
  | address | status
deriving DecidableEq

/-- `EXCEPTION`, as far as `exc_matches` looks at it. -/
structure Exception where
  kind : ExcKind
  value : ℤ
deriving DecidableEq

/-- `pthread_cancel_e`; its value is its own address. -/
def pthreadCancelE : Exception := ⟨.address, 0⟩

/-- `exc_matches`. -/
def excMatches (cur exc : Exception) : Bool :=
  cur.kind = exc.kind ∧ cur.value = exc.value

variable {σ : Type}

mutual

/-- A program: `step` is an ordinary statement, procedures are called by number. -/
inductive Stmt (σ : Type)
  | step (f : σ → σ)
  | seq (p q : Stmt σ)
  | ite (c : σ → Bool) (p q : Stmt σ)
  | call (proc : ℕ)
  | raise (exc : Exception)
  | reraise
  | tryCatch (body : Stmt σ) (handlers : Handlers σ)
  | tryFinally (body fin : Stmt σ)

/-- What stands between the body of a `TRY` and its `ENDTRY`. -/
inductive Handlers (σ : Type)
  | endtry
  | catchAll (p : Stmt σ)
  | clause (exc : Exception) (p : Stmt σ) (rest : Handlers σ)

end

/-- The handler that the chain of tests comes to. -/
def Handlers.select : Handlers σ → Exception → Option (Stmt σ)
  | .endtry, _ => none
  | .catchAll p, _ => some p
  | .clause exc p rest, cur => if excMatches cur exc then some p else rest.select cur

mutual

/-- `RERAISE` is legal only within a `CATCH` or a `CATCH_ALL`. -/
def Stmt.Legal : Bool → Stmt σ → Prop
  | _, .step _ => True
  | inHandler, .seq p q => p.Legal inHandler ∧ q.Legal inHandler
  | inHandler, .ite _ p q => p.Legal inHandler ∧ q.Legal inHandler
  | _, .call _ => True
  | _, .raise _ => True
  | inHandler, .reraise => inHandler = true
  | _, .tryCatch body handlers => body.Legal false ∧ handlers.Legal
  | _, .tryFinally body fin => body.Legal false ∧ fin.Legal false

def Handlers.Legal : Handlers σ → Prop
  | .endtry => True
  | .catchAll p => p.Legal true
  | .clause _ p rest => p.Legal true ∧ rest.Legal

end

/-! ### The macros -/

/-- `_exc_buf`.  The jump buffer is the buffer itself: a jump to it goes to the frame that has it. -/
structure ExcBuf where
  currentExc : Option Exception := none
  next : Option ℕ := none
  freed : Bool := false

/-- A thread: the program's own data, the buffers that were allocated, and the top of the stack,
which is stored under `_exc_key`.  `marks` records the top that a `TRY` found beside the one that is
in force at its `ENDTRY` or where an exception arrives. -/
structure Thread (σ : Type) where
  mem : σ
  bufs : List ExcBuf := []
  head : Option ℕ := none
  marks : List (Option ℕ × Option ℕ) := []

/-- How a statement ends.  `undefined` is the use of a buffer that was freed. -/
inductive Outcome
  | normal
  | jump (eb : ℕ)
  | exitThread
  | exitProcess
  | undefined
  | outOfFuel
deriving DecidableEq

abbrev Result (σ : Type) := Outcome × Thread σ

def andThen : Result σ → (Thread σ → Result σ) → Result σ
  | (.normal, s), k => k s
  | r, _ => r

def Thread.updBuf (s : Thread σ) (eb : ℕ) (f : ExcBuf → ExcBuf) : Thread σ :=
  { s with bufs := s.bufs.modify eb f }

def mark (found : Option ℕ) (s : Thread σ) : Thread σ :=
  { s with marks := (found, s.head) :: s.marks }

/-- `_exc_alloc_buf`. -/
def excAllocBuf (s : Thread σ) (buf : ExcBuf) : Thread σ := { s with bufs := s.bufs ++ [buf] }

/-- `_exc_thread_init`. -/
def excThreadInit (s : Thread σ) : Thread σ :=
  match s.head with
  | some _ => s
  | none =>
    { excAllocBuf s { currentExc := some pthreadCancelE } with head := some s.bufs.length }

/-- `_exc_push_buf`, for a buffer just allocated. -/
def excPushBuf (s : Thread σ) : Thread σ :=
  { excAllocBuf s { next := s.head } with head := some s.bufs.length }

/-- `_exc_pop_buf`. -/
def excPopBuf (s : Thread σ) : Result σ :=
  match s.head.bind fun eb => s.bufs[eb]? with
  | some buf => if buf.freed then (.undefined, s) else (.normal, { s with head := buf.next })
  | none => (.undefined, s)

/-- `destroy_exc`. -/
def destroyExc (s : Thread σ) (eb : ℕ) : Result σ :=
  match s.bufs[eb]? with
  | some buf =>
    if buf.freed then (.undefined, s)
    else (.normal, s.updBuf eb fun buf => { buf with freed := true })
  | none => (.undefined, s)

/-- `_exc_set_current`. -/
def excSetCurrent (s : Thread σ) (exc : Exception) : Result σ :=
  match s.head with
  | none => (.exitProcess, s)
  | some eb =>
    match s.bufs[eb]? with
    | none => (.undefined, s)
    | some buf =>
      if buf.freed then (.undefined, s)
      else if buf.next = none ∧ excMatches exc pthreadCancelE then (.exitThread, s)
      else
        let s := s.updBuf eb fun buf => { buf with currentExc := some exc }
        if buf.next = none then (.exitProcess, s) else (.jump eb, s)

/-- `_exc_reraise`. -/
def excReraise (s : Thread σ) (exc : Option Exception) : Result σ :=
  match exc with
  | none => (.exitProcess, s)
  | some exc => excSetCurrent s exc

/-- Control arrives at the frame of `eb` by a jump: the buffer is popped, and its exception is the
current one of the frame. -/
def land (s : Thread σ) (eb : ℕ) (found : Option ℕ) (k : Option Exception → Thread σ → Result σ) :
    Result σ :=
  andThen (excPopBuf s) fun s =>
    match s.bufs[eb]? with
    | some buf => if buf.freed then (.undefined, s) else k buf.currentExc (mark found s)
    | none => (.undefined, s)

/-- `ENDTRY`, after the body was run through. -/
def endtryNormal (s : Thread σ) (eb : ℕ) (found : Option ℕ) : Result σ :=
  andThen (excPopBuf s) fun s => andThen (destroyExc s eb) fun s => (.normal, mark found s)

/-- `ENDTRY`, after an exception. -/
def endtryExc (s : Thread σ) (eb : ℕ) (found : Option ℕ) (cur : Option Exception)
    (handled : Bool) : Result σ :=
  andThen (destroyExc s eb) fun s =>
    if handled then (.normal, mark found s) else excReraise (mark found s) cur

/-- What follows a `FINALLY` block.  An exception of the block arrives at the frame once more if the
buffer is still in force, and is passed on from there. -/
def inFinally (eb : ℕ) (found : Option ℕ) (r : Result σ) (k : Thread σ → Result σ) : Result σ :=
  match r with
  | (.normal, s) => k s
  | (.jump b, s) => if b = eb then land s eb found fun cur s => excReraise s cur else (.jump b, s)
  | r => r

/-- The variables of a `TRY` that `RERAISE` refers to: `_eb` and `_exc_cur`. -/
abbrev Frame := Option (ℕ × Option Exception)

/-- A program with at most `n` nested steps. -/
def run (procs : ℕ → Stmt σ) : ℕ → Frame → Stmt σ → Thread σ → Result σ
  | 0, _, _, s => (.outOfFuel, s)
  | _ + 1, _, .step f, s => (.normal, { s with mem := f s.mem })
  | n + 1, fr, .seq p q, s => andThen (run procs n fr p s) fun s => run procs n fr q s
  | n + 1, fr, .ite c p q, s => if c s.mem then run procs n fr p s else run procs n fr q s
  | n + 1, _, .call proc, s => run procs n none (procs proc) s
  | _ + 1, _, .raise exc, s => excSetCurrent s exc
  | _ + 1, fr, .reraise, s =>
    match fr with
    | some (eb, cur) => andThen (destroyExc s eb) fun s => excReraise s cur
    | none => (.undefined, s)
  | n + 1, _, .tryCatch body handlers, s =>
    let s := excThreadInit s
    let found := s.head
    let eb := s.bufs.length
    match run procs n (some (eb, none)) body (excPushBuf s) with
    | (.normal, s) => endtryNormal s eb found
    | (.jump b, s) =>
      if b = eb then
        land s eb found fun cur s =>
          match cur.bind handlers.select with
          | some p => andThen (run procs n (some (eb, cur)) p s) fun s => endtryExc s eb found cur true
          | none => endtryExc s eb found cur false
      else (.jump b, s)
    | r => r
  | n + 1, _, .tryFinally body fin, s =>
    let s := excThreadInit s
    let found := s.head
    let eb := s.bufs.length
    match run procs n (some (eb, none)) body (excPushBuf s) with
    | (.normal, s) =>
      inFinally eb found (run procs n (some (eb, none)) fin s) fun s => endtryNormal s eb found
    | (.jump b, s) =>
      if b = eb then
        land s eb found fun cur s =>
          inFinally eb found (run procs n (some (eb, cur)) fin s) fun s =>
            endtryExc s eb found cur false
      else (.jump b, s)
    | r => r

/-! ### The meaning -/

inductive RefOutcome
  | normal
  | exc (exc : Exception)
  | outOfFuel
deriving DecidableEq

/-- The program's data, and whether the thread has executed a `TRY`. -/
abbrev RefResult (σ : Type) := RefOutcome × σ × Bool

def RefResult.andThen : RefResult σ → (σ → Bool → RefResult σ) → RefResult σ
  | (.normal, m, tried), k => k m tried
  | r, _ => r

/-- What a program means; `cur` is the exception that the handler around it is for. -/
def eval (procs : ℕ → Stmt σ) : ℕ → Option Exception → Stmt σ → σ → Bool → RefResult σ
  | 0, _, _, m, tried => (.outOfFuel, m, tried)
  | _ + 1, _, .step f, m, tried => (.normal, f m, tried)
  | n + 1, cur, .seq p q, m, tried =>
    (eval procs n cur p m tried).andThen fun m tried => eval procs n cur q m tried
  | n + 1, cur, .ite c p q, m, tried =>
    if c m then eval procs n cur p m tried else eval procs n cur q m tried
  | n + 1, _, .call proc, m, tried => eval procs n none (procs proc) m tried
  | _ + 1, _, .raise exc, m, tried => (.exc exc, m, tried)
  | _ + 1, cur, .reraise, m, tried =>
    match cur with
    | some exc => (.exc exc, m, tried)
    | none => (.normal, m, tried)
  | n + 1, cur, .tryCatch body handlers, m, _ =>
    match eval procs n cur body m true with
    | (.exc exc, m, tried) =>
      match handlers.select exc with
      | some p => eval procs n (some exc) p m tried
      | none => (.exc exc, m, tried)
    | r => r
  | n + 1, cur, .tryFinally body fin, m, _ =>
    match eval procs n cur body m true with
    | (.normal, m, tried) => eval procs n cur fin m tried
    | (.exc exc, m, tried) =>
      (eval procs n cur fin m tried).andThen fun m tried => (.exc exc, m, tried)
    | r => r

/-- What becomes of a thread.  An exception that no `TRY` takes ends the thread if it is a cancel,
and the process otherwise; a thread without any `TRY` so far cannot be ended on its own. -/
def endOf : RefOutcome → Bool → Outcome
  | .normal, _ => .normal
  | .outOfFuel, _ => .outOfFuel
  | .exc exc, tried => if tried ∧ exc = pthreadCancelE then .exitThread else .exitProcess

/-! ### The stack of buffers -/

variable {s t u : Thread σ} {l l' : List ℕ} {h ex : Option ℕ} {e : Exception} {b : ℕ}

theorem excMatches_iff {cur exc : Exception} : excMatches cur exc = true ↔ cur = exc := by
  rcases cur with ⟨k, v⟩
  rcases exc with ⟨k', v'⟩
  simp [excMatches]

/-- The buffers from the top on, none of them freed. -/
def IsStack (bufs : List ExcBuf) : Option ℕ → List ℕ → Prop
  | h, [] => h = none
  | h, b :: l => h = some b ∧ b ∉ l ∧
    ∃ buf, bufs[b]? = some buf ∧ buf.freed = false ∧ IsStack bufs buf.next l

theorem IsStack.head_eq {bufs : List ExcBuf} (hst : IsStack bufs h l) : h = l.head? := by
  cases l with
  | nil => exact hst
  | cons b l => exact hst.1

/-- Buffers stay as they are, but for the exceptions in them; the buffer `ex` can be freed. -/
structure Same (ex : Option ℕ) (s t : Thread σ) : Prop where
  length : s.bufs.length ≤ t.bufs.length
  buf : ∀ (k : ℕ) (x : ExcBuf), s.bufs[k]? = some x → ex ≠ some k →
    ∃ x', t.bufs[k]? = some x' ∧ x'.next = x.next ∧ x'.freed = x.freed

theorem Same.refl (s : Thread σ) : Same ex s s := ⟨le_rfl, fun _ x hx _ => ⟨x, hx, rfl, rfl⟩⟩

theorem Same.trans (h₁ : Same none s t) (h₂ : Same ex t u) : Same ex s u := by
  refine ⟨h₁.length.trans h₂.length, fun k x hx hk => ?_⟩
  obtain ⟨x', hx', hnext, hfreed⟩ := h₁.buf k x hx (by simp)
  obtain ⟨x'', hx'', hnext', hfreed'⟩ := h₂.buf k x' hx' hk
  exact ⟨x'', hx'', hnext'.trans hnext, hfreed'.trans hfreed⟩

theorem Same.weaken (h₁ : Same none s t) : Same ex s t :=
  ⟨h₁.length, fun k x hx _ => h₁.buf k x hx (by simp)⟩

/-- A buffer that was not there yet may be freed. -/
theorem Same.trans_fresh (h₁ : Same none s t) (h₂ : Same (some b) t u)
    (hb : s.bufs.length ≤ b) : Same none s u := by
  refine ⟨h₁.length.trans h₂.length, fun k x hx _ => ?_⟩
  have hk := (List.getElem?_eq_some_iff.mp hx).1
  obtain ⟨x', hx', hnext, hfreed⟩ := h₁.buf k x hx (by simp)
  obtain ⟨x'', hx'', hnext', hfreed'⟩ := h₂.buf k x' hx' (by simp; omega)
  exact ⟨x'', hx'', hnext'.trans hnext, hfreed'.trans hfreed⟩

theorem IsStack.of_same (hst : IsStack s.bufs h l) (hsame : Same ex s t)
    (hex : ∀ k ∈ l, ex ≠ some k) : IsStack t.bufs h l := by
  induction l generalizing h with
  | nil => exact hst
  | cons b l ih =>
    obtain ⟨rfl, hnot, buf, hbuf, hfreed, hrest⟩ := hst
    obtain ⟨buf', hbuf', hnext', hfreed'⟩ := hsame.buf b buf hbuf (hex b List.mem_cons_self)
    refine ⟨rfl, hnot, buf', hbuf', hfreed'.trans hfreed, ?_⟩
    rw [hnext']
    exact ih hrest fun k hk => hex k (List.mem_cons_of_mem _ hk)

theorem IsStack.lt_length (hst : IsStack s.bufs h l) {k : ℕ} (hk : k ∈ l) :
    k < s.bufs.length := by
  induction l generalizing h with
  | nil => cases hk
  | cons b l ih =>
    obtain ⟨-, -, buf, hbuf, -, hrest⟩ := hst
    rcases List.mem_cons.mp hk with rfl | hk
    · exact (List.getElem?_eq_some_iff.mp hbuf).1
    · exact ih hrest hk

theorem same_append {bufs : List ExcBuf} (ht : t.bufs = s.bufs ++ bufs) : Same none s t := by
  refine ⟨by rw [ht, List.length_append]; omega, fun k x hx _ => ⟨x, ?_, rfl, rfl⟩⟩
  rw [ht, List.getElem?_append_left (List.getElem?_eq_some_iff.mp hx).1, hx]

theorem same_updBuf {f : ExcBuf → ExcBuf} (hf : ∀ x, (f x).next = x.next ∧ (f x).freed = x.freed) :
    Same none s (s.updBuf b f) := by
  refine ⟨by rw [Thread.updBuf, List.length_modify], fun k x hx _ => ?_⟩
  refine ⟨if b = k then f x else x, ?_, ?_⟩
  · rw [Thread.updBuf, List.getElem?_modify, hx]
    split <;> rfl
  · split
    · exact hf x
    · exact ⟨rfl, rfl⟩

theorem same_destroy {f : ExcBuf → ExcBuf} :
    Same (some b) s (s.updBuf b f) := by
  refine ⟨by rw [Thread.updBuf, List.length_modify], fun k x hx hk => ⟨x, ?_, rfl, rfl⟩⟩
  have hne : b ≠ k := fun heq => hk (congrArg some heq)
  rw [Thread.updBuf, List.getElem?_modify, hx]
  simp [hne]

/-! ### Single operations -/

/-- Every `TRY` found the stack that is in force where it was left. -/
def MarksOk (s : Thread σ) : Prop := ∀ m ∈ s.marks, m.1 = m.2

theorem marksOk_mark {found : Option ℕ} (hm : MarksOk s) (hfound : found = s.head) :
    MarksOk (mark found s) := by
  intro m hmem
  rcases List.mem_cons.mp hmem with rfl | hmem
  · exact hfound
  · exact hm m hmem

/-- Where an exception goes from a stack: to the top buffer, unless that is the thread's own. -/
def deliver (l : List ℕ) (e : Exception) : Outcome :=
  match l with
  | b :: _ :: _ => .jump b
  | [_] => if e = pthreadCancelE then .exitThread else .exitProcess
  | [] => .exitProcess

/-- What follows is not run once an exception is on its way. -/
theorem andThen_deliver (l : List ℕ) (e : Exception) (t : Thread σ) (k : Thread σ → Result σ) :
    andThen (deliver l e, t) k = (deliver l e, t) := by
  unfold deliver
  split
  · rfl
  · split <;> rfl
  · rfl

/-- A `FINALLY` block is run for an exception that waits in its own buffer only. -/
theorem inFinally_deliver {b c : ℕ} {rest : List ℕ} {e : Exception} {found : Option ℕ}
    {t : Thread σ} {k : Thread σ → Result σ} (hc : c ≠ b) :
    inFinally b found (deliver (c :: rest) e, t) k = (deliver (c :: rest) e, t) := by
  unfold deliver
  split
  · next b' _ _ heq =>
    obtain rfl := (List.cons.inj heq).1
    simp only [inFinally, if_neg hc]
  · split <;> rfl
  · rfl

/-- The exception waits in the top buffer. -/
def Delivered (s : Thread σ) (l : List ℕ) (e : Exception) : Prop :=
  IsStack s.bufs s.head l ∧ ∀ b, s.head = some b →
    ∃ buf, s.bufs[b]? = some buf ∧ buf.currentExc = some e

theorem excSetCurrent_spec (hst : IsStack s.bufs s.head l) (e : Exception) :
    ∃ t, excSetCurrent s e = (deliver l e, t) ∧ t.mem = s.mem ∧ t.marks = s.marks ∧
      Same none s t ∧ (2 ≤ l.length → Delivered t l e) := by
  cases l with
  | nil =>
    have hhead : s.head = none := hst
    refine ⟨s, ?_, rfl, rfl, Same.refl s, fun h2 => absurd h2 (by decide)⟩
    rw [excSetCurrent, hhead]
    rfl
  | cons b l =>
    obtain ⟨hhead, hnot, buf, hbuf, hfreed, hrest⟩ := hst
    set t := s.updBuf b fun buf => { buf with currentExc := some e } with ht
    have hsame : Same none s t := same_updBuf fun _ => ⟨rfl, rfl⟩
    cases l with
    | nil =>
      have hnext : buf.next = none := hrest
      by_cases hcancel : e = pthreadCancelE
      · refine ⟨s, ?_, rfl, rfl, Same.refl s, fun h2 => absurd h2 (by simp)⟩
        simp only [excSetCurrent, hhead, hbuf, hfreed, hnext, Bool.false_eq_true, if_false,
          true_and, excMatches_iff, hcancel, if_true, deliver]
      · refine ⟨t, ?_, rfl, rfl, hsame, fun h2 => absurd h2 (by simp)⟩
        simp only [excSetCurrent, hhead, hbuf, hfreed, hnext, Bool.false_eq_true, if_false,
          true_and, excMatches_iff, hcancel, if_true, deliver, ← ht]
    | cons c l =>
      have hnext : buf.next = some c := hrest.1
      refine ⟨t, ?_, rfl, rfl, hsame, fun _ => ⟨?_, fun b' hb' => ?_⟩⟩
      · simp only [excSetCurrent, hhead, hbuf, hfreed, hnext, Bool.false_eq_true, if_false,
          false_and, deliver, reduceCtorEq, ← ht]
      · have hold : IsStack s.bufs s.head (b :: c :: l) := ⟨hhead, hnot, buf, hbuf, hfreed, hrest⟩
        exact hold.of_same hsame fun _ _ => by simp
      · have hb : b = b' := Option.some_inj.mp (hhead.symm.trans hb')
        refine ⟨{ buf with currentExc := some e }, ?_, rfl⟩
        rw [ht, Thread.updBuf, List.getElem?_modify, ← hb, hbuf]
        simp

theorem excPopBuf_spec (hst : IsStack s.bufs s.head (b :: l)) :
    ∃ t, excPopBuf s = (.normal, t) ∧ t.mem = s.mem ∧ t.marks = s.marks ∧ t.bufs = s.bufs ∧
      IsStack t.bufs t.head l := by
  obtain ⟨hhead, -, buf, hbuf, hfreed, hrest⟩ := hst
  refine ⟨{ s with head := buf.next }, ?_, rfl, rfl, rfl, hrest⟩
  rw [excPopBuf, hhead, Option.bind_some, hbuf]
  simp only [hfreed, Bool.false_eq_true, if_false]

theorem destroyExc_spec {buf : ExcBuf} (hbuf : s.bufs[b]? = some buf) (hfreed : buf.freed = false) :
    ∃ t, destroyExc s b = (.normal, t) ∧ t.mem = s.mem ∧ t.marks = s.marks ∧ t.head = s.head ∧
      Same (some b) s t := by
  refine ⟨s.updBuf b fun buf => { buf with freed := true }, ?_, rfl, rfl, rfl,
    same_destroy⟩
  rw [destroyExc, hbuf]
  simp only [hfreed, Bool.false_eq_true, if_false]

/-- The stack after a program: a thread gets its own buffer with the first `TRY`. -/
def Grown (l l' : List ℕ) : Prop := l' = l ∨ l = [] ∧ ∃ b, l' = [b]

theorem Grown.refl (l : List ℕ) : Grown l l := .inl rfl

theorem Grown.of_ne_nil (hg : Grown l l') (hne : l ≠ []) : l' = l := by
  rcases hg with h | ⟨h, -⟩
  · exact h
  · exact absurd h hne

theorem Grown.trans {l'' : List ℕ} (h₁ : Grown l l') (h₂ : Grown l' l'') : Grown l l'' := by
  rcases h₁ with rfl | ⟨rfl, b, rfl⟩
  · exact h₂
  · rw [h₂.of_ne_nil (List.cons_ne_nil b [])]
    exact .inr ⟨rfl, b, rfl⟩

/-- What a `TRY` starts with. -/
theorem enter_spec (hst : IsStack s.bufs s.head l) (hm : MarksOk s) :
    ∃ t l₀, excThreadInit s = t ∧ Grown l l₀ ∧ l₀ ≠ [] ∧ t.mem = s.mem ∧
      s.bufs.length ≤ t.bufs.length ∧ t.head = l₀.head? ∧
      IsStack (excPushBuf t).bufs (excPushBuf t).head (t.bufs.length :: l₀) ∧
      Same none s (excPushBuf t) ∧ MarksOk (excPushBuf t) := by
  have hpush : ∀ {t : Thread σ} {l₀ : List ℕ}, IsStack t.bufs t.head l₀ →
      IsStack (excPushBuf t).bufs (excPushBuf t).head (t.bufs.length :: l₀) := by
    intro t l₀ ht
    refine ⟨rfl, fun hmem => lt_irrefl _ (ht.lt_length hmem), { next := t.head }, ?_, rfl, ?_⟩
    · exact List.getElem?_concat_length
    · exact ht.of_same (same_append rfl : Same none t (excPushBuf t)) fun _ _ => by simp
  cases l with
  | nil =>
    have hhead : s.head = none := hst
    have hinit : excThreadInit s =
        { excAllocBuf s { currentExc := some pthreadCancelE } with head := some s.bufs.length } := by
      rw [excThreadInit, hhead]
    refine ⟨_, [s.bufs.length], rfl, .inr ⟨rfl, _, rfl⟩, List.cons_ne_nil _ _, ?_⟩
    rw [hinit]
    refine ⟨rfl, ?_, rfl, hpush ⟨rfl, List.not_mem_nil, { currentExc := some pthreadCancelE }, ?_, rfl, rfl⟩, ?_, hm⟩
    · simp only [excAllocBuf, List.length_append]
      omega
    · exact List.getElem?_concat_length
    · refine (same_append rfl : Same none s (excAllocBuf s { currentExc := some pthreadCancelE })).trans ?_
      exact same_append rfl
  | cons b l =>
    have hinit : excThreadInit s = s := by rw [excThreadInit, hst.1]
    refine ⟨s, b :: l, hinit, Grown.refl _, List.cons_ne_nil _ _, rfl, le_rfl, hst.1, hpush hst,
      same_append rfl, hm⟩

/-! ### Programs -/

/-- How the macros and the meaning of a program go together, from the stack `l`; the buffer `ex` is
the one that a `RERAISE` may free. -/
inductive Matches (s : Thread σ) (l : List ℕ) (ex : Option ℕ) : Result σ → RefResult σ → Prop
  | outOfFuel (t : Thread σ) (m : σ) (tried : Bool) (hm : MarksOk t) :
    Matches s l ex (.outOfFuel, t) (.outOfFuel, m, tried)
  | normal (t : Thread σ) (l' : List ℕ) (hg : Grown l l') (hst : IsStack t.bufs t.head l')
    (hsame : Same none s t) (hm : MarksOk t) :
    Matches s l ex (.normal, t) (.normal, t.mem, decide (l' ≠ []))
  | exc (t : Thread σ) (l' : List ℕ) (e : Exception) (hg : Grown l l')
    (hsame : Same ex s t) (hm : MarksOk t) (hdel : 2 ≤ l'.length → Delivered t l' e) :
    Matches s l ex (deliver l' e, t) (.exc e, t.mem, decide (l' ≠ []))

theorem Matches.weaken {r : Result σ} {r' : RefResult σ} (h : Matches s l none r r') :
    Matches s l ex r r' := by
  cases h with
  | outOfFuel t m tried hm => exact .outOfFuel t m tried hm
  | normal t l' hg hst hsame hm => exact .normal t l' hg hst hsame hm
  | exc t l' e hg hsame hm hdel => exact .exc t l' e hg hsame.weaken hm hdel

/-- A program that goes on from where another one came to. -/
theorem Matches.after {r : Result σ} {r' : RefResult σ} (h : Matches t l' ex r r')
    (hg : Grown l l') (hsame : Same none s t) : Matches s l ex r r' := by
  cases h with
  | outOfFuel u m tried hm => exact .outOfFuel u m tried hm
  | normal u l'' hg' hst hsame' hm =>
    exact .normal u l'' (hg.trans hg') hst (hsame.trans hsame') hm
  | exc u l'' e hg' hsame' hm hdel =>
    exact .exc u l'' e (hg.trans hg') (hsame.trans hsame') hm hdel

/-- The same for a program that could free a buffer which was not there at the start. -/
theorem Matches.after_fresh {r : Result σ} {r' : RefResult σ} (h : Matches t l' (some b) r r')
    (hg : Grown l l') (hsame : Same none s t) (hb : s.bufs.length ≤ b) :
    Matches s l ex r r' := by
  cases h with
  | outOfFuel u m tried hm => exact .outOfFuel u m tried hm
  | normal u l'' hg' hst hsame' hm =>
    exact .normal u l'' (hg.trans hg') hst (hsame.trans hsame') hm
  | exc u l'' e hg' hsame' hm hdel =>
    exact .exc u l'' e (hg.trans hg') (hsame.trans_fresh hsame' hb).weaken hm hdel

theorem matches_raise (hst : IsStack s.bufs s.head l) (hm : MarksOk s) (e : Exception) :
    Matches s l none (excSetCurrent s e) (.exc e, s.mem, decide (l ≠ [])) := by
  obtain ⟨t, ht, hmem, hmarks, hsame, hdel⟩ := excSetCurrent_spec hst e
  rw [ht, ← hmem]
  refine .exc t l e (Grown.refl l) hsame ?_ hdel
  rw [MarksOk, hmarks]
  exact hm

/-- `RERAISE` frees the buffer of its frame and passes the exception on. -/
theorem matches_destroy_raise (hst : IsStack s.bufs s.head l) (hm : MarksOk s) {buf : ExcBuf}
    (hbuf : s.bufs[b]? = some buf) (hfreed : buf.freed = false) (hb : b ∉ l) (e : Exception) :
    Matches s l (some b) (andThen (destroyExc s b) fun s => excReraise s (some e))
      (.exc e, s.mem, decide (l ≠ [])) := by
  obtain ⟨t, ht, hmem, hmarks, hhead, hsame⟩ := destroyExc_spec hbuf hfreed
  have hst' : IsStack t.bufs t.head l := by
    rw [hhead]
    exact hst.of_same hsame fun k hk heq => hb (Option.some_inj.mp heq ▸ hk)
  have hm' : MarksOk t := by
    rw [MarksOk, hmarks]
    exact hm
  obtain ⟨u, hu, hmem', hmarks', hsame', hdel⟩ := excSetCurrent_spec hst' e
  rw [ht]
  change Matches s l (some b) (excSetCurrent t e) _
  rw [hu, ← hmem, ← hmem']
  refine .exc u l e (Grown.refl l) ⟨hsame.length.trans hsame'.length, fun k x hx hk => ?_⟩ ?_ hdel
  · obtain ⟨x', hx', hnext, hfreed⟩ := hsame.buf k x hx hk
    obtain ⟨x'', hx'', hnext', hfreed'⟩ := hsame'.buf k x' hx' (by simp)
    exact ⟨x'', hx'', hnext'.trans hnext, hfreed'.trans hfreed⟩
  · rw [MarksOk, hmarks']
    exact hm'

section Blocks

variable {found : Option ℕ} {buf : ExcBuf}

/-- The end of a `TRY` whose body ran through. -/
theorem endtryNormal_spec (hst : IsStack s.bufs s.head (b :: l)) (hfound : found = l.head?)
    (hm : MarksOk s) :
    ∃ t, endtryNormal s b found = (.normal, t) ∧ t.mem = s.mem ∧ IsStack t.bufs t.head l ∧
      Same (some b) s t ∧ MarksOk t := by
  obtain ⟨-, hnot, buf, hbuf, hfreed, -⟩ := id hst
  obtain ⟨t, ht, hmem, hmarks, hbufs, hst'⟩ := excPopBuf_spec hst
  rw [← hbufs] at hbuf
  obtain ⟨u, hu, hmem', hmarks', hhead, hsame⟩ := destroyExc_spec hbuf hfreed
  have hst'' : IsStack u.bufs u.head l := by
    rw [hhead]
    exact hst'.of_same hsame fun k hk heq => hnot (Option.some_inj.mp heq ▸ hk)
  refine ⟨mark found u, ?_, hmem'.trans hmem, hst'', ?_, marksOk_mark ?_ ?_⟩
  · rw [endtryNormal, ht]
    change andThen (destroyExc t b) _ = _
    rw [hu]
    rfl
  · refine ⟨?_, fun k x hx hk => ?_⟩
    · rw [← hbufs]
      exact hsame.length
    · exact hsame.buf k x (by rw [hbufs]; exact hx) hk
  · rw [MarksOk, hmarks', hmarks]
    exact hm
  · rw [hfound]
    exact hst''.head_eq.symm

/-- The end of a `TRY` whose exception was handled. -/
theorem endtryExc_handled (cur : Option Exception) (hst : IsStack s.bufs s.head l)
    (hfound : found = l.head?) (hm : MarksOk s) (hbuf : s.bufs[b]? = some buf)
    (hfreed : buf.freed = false) (hb : b ∉ l) :
    ∃ t, endtryExc s b found cur true = (.normal, t) ∧ t.mem = s.mem ∧
      IsStack t.bufs t.head l ∧ Same (some b) s t ∧ MarksOk t := by
  obtain ⟨t, ht, hmem, hmarks, hhead, hsame⟩ := destroyExc_spec hbuf hfreed
  have hst' : IsStack t.bufs t.head l := by
    rw [hhead]
    exact hst.of_same hsame fun k hk heq => hb (Option.some_inj.mp heq ▸ hk)
  refine ⟨mark found t, ?_, hmem, hst', ⟨hsame.length, hsame.buf⟩, marksOk_mark ?_ ?_⟩
  · rw [endtryExc, ht]
    rfl
  · rw [MarksOk, hmarks]
    exact hm
  · rw [hfound]
    exact hst'.head_eq.symm

/-- The end of a `TRY` whose exception was not handled. -/
theorem endtryExc_unhandled (hst : IsStack s.bufs s.head l) (hfound : found = l.head?)
    (hm : MarksOk s) (hbuf : s.bufs[b]? = some buf) (hfreed : buf.freed = false) (hb : b ∉ l)
    (e : Exception) :
    Matches s l (some b) (endtryExc s b found (some e) false) (.exc e, s.mem, decide (l ≠ [])) := by
  obtain ⟨t, ht, hmem, hst', hsame, hm'⟩ :=
    endtryExc_handled (some e) hst hfound hm hbuf hfreed hb
  have hrun : endtryExc s b found (some e) false = excSetCurrent t e := by
    obtain ⟨u, hu, -⟩ := destroyExc_spec hbuf hfreed
    rw [endtryExc, hu] at ht
    obtain rfl : mark found u = t := (Prod.mk.inj ht).2
    rw [endtryExc, hu]
    rfl
  obtain ⟨u, hu, hmem', hmarks', hsame', hdel⟩ := excSetCurrent_spec hst' e
  rw [hrun, hu, ← hmem, ← hmem']
  refine .exc u l e (Grown.refl l) ⟨hsame.length.trans hsame'.length, fun k x hx hk => ?_⟩ ?_ hdel
  · obtain ⟨x', hx', hnext, hfreed⟩ := hsame.buf k x hx hk
    obtain ⟨x'', hx'', hnext', hfreed'⟩ := hsame'.buf k x' hx' (by simp)
    exact ⟨x'', hx'', hnext'.trans hnext, hfreed'.trans hfreed⟩
  · rw [MarksOk, hmarks']
    exact hm'

/-- An exception arrives at the frame of the top buffer. -/
theorem land_spec {k : Option Exception → Thread σ → Result σ} (hdel : Delivered s (b :: l) e)
    (hfound : found = l.head?) (hm : MarksOk s) :
    ∃ t buf, land s b found k = k (some e) t ∧ t.mem = s.mem ∧ IsStack t.bufs t.head l ∧
      Same none s t ∧ MarksOk t ∧ t.bufs[b]? = some buf ∧ buf.freed = false ∧ b ∉ l := by
  obtain ⟨hst, hcur⟩ := hdel
  obtain ⟨hhead, hnot, buf, hbuf, hfreed, -⟩ := id hst
  obtain ⟨buf', hbuf', hexc⟩ := hcur b hhead
  obtain rfl : buf = buf' := Option.some_inj.mp (hbuf.symm.trans hbuf')
  obtain ⟨t, ht, hmem, hmarks, hbufs, hst'⟩ := excPopBuf_spec hst
  refine ⟨mark found t, buf, ?_, hmem, hst', same_append (hbufs.trans (List.append_nil _).symm), marksOk_mark ?_ ?_, ?_,
    hfreed, hnot⟩
  · rw [land, ht]
    change (match t.bufs[b]? with
      | some buf => if buf.freed = true then (Outcome.undefined, t) else k buf.currentExc (mark found t)
      | none => (.undefined, t)) = _
    rw [hbufs, hbuf]
    simp only [hfreed, Bool.false_eq_true, if_false, hexc]
  · rw [MarksOk, hmarks]
    exact hm
  · rw [hfound]
    exact hst'.head_eq.symm
  · change t.bufs[b]? = _
    rw [hbufs, hbuf]

end Blocks

theorem Handlers.Legal.of_select {exc : Exception} {p : Stmt σ} :
    ∀ {handlers : Handlers σ}, handlers.Legal → handlers.select exc = some p → p.Legal true
  | .endtry, _, hsel => nomatch hsel
  | .catchAll p, hlegal, hsel => by
    cases hsel
    exact hlegal
  | .clause exc' q rest, hlegal, hsel => by
    rw [Handlers.select] at hsel
    split at hsel
    · cases hsel
      exact hlegal.1
    · exact Handlers.Legal.of_select hlegal.2 hsel

/-- The frame of a handler: its buffer was popped, and is not freed yet. -/
def InHandler (s : Thread σ) (l : List ℕ) (fr : Frame) (cur : Option Exception) : Prop :=
  ∃ eb exc buf, fr = some (eb, some exc) ∧ cur = some exc ∧ s.bufs[eb]? = some buf ∧
    buf.freed = false ∧ eb ∉ l ∧ l ≠ []

/-- The buffer that the program may free. -/
def frameBuf (inHandler : Bool) (fr : Frame) : Option ℕ :=
  if inHandler then fr.map Prod.fst else none

/-- Programs of at most `n` nested steps do what they mean. -/
def Correct (procs : ℕ → Stmt σ) (n : ℕ) : Prop :=
  ∀ (p : Stmt σ) (inHandler : Bool) (fr : Frame) (cur : Option Exception) (s : Thread σ)
    (l : List ℕ), p.Legal inHandler → IsStack s.bufs s.head l → MarksOk s →
    (inHandler = true → InHandler s l fr cur) →
    Matches s l (frameBuf inHandler fr) (run procs n fr p s)
      (eval procs n cur p s.mem (decide (l ≠ [])))

variable {procs : ℕ → Stmt σ} {n : ℕ}

/-- A body or a `FINALLY` block, in which no `RERAISE` is legal. -/
theorem Correct.block (hn : Correct procs n) {p : Stmt σ} (fr : Frame) (cur : Option Exception)
    (hlegal : p.Legal false) (hst : IsStack s.bufs s.head l) (hm : MarksOk s) (hne : l ≠ []) :
    Matches s l none (run procs n fr p s) (eval procs n cur p s.mem true) := by
  have hmatch := hn p false fr cur s l hlegal hst hm (fun h => nomatch h)
  rwa [decide_eq_true hne] at hmatch

theorem InHandler.mono {fr : Frame} {cur : Option Exception} (hin : InHandler s l fr cur)
    (hsame : Same none s t) : InHandler t l fr cur := by
  obtain ⟨eb, exc, buf, hfr, hcur, hbuf, hfreed, hnot, hne⟩ := hin
  obtain ⟨buf', hbuf', -, hfreed'⟩ := hsame.buf eb buf hbuf (by simp)
  exact ⟨eb, exc, buf', hfr, hcur, hbuf', hfreed'.trans hfreed, hnot, hne⟩

theorem correct_tryCatch (hn : Correct procs n) {body : Stmt σ} {handlers : Handlers σ} {fr : Frame}
    {cur : Option Exception} (hbody : body.Legal false) (hhandlers : handlers.Legal)
    (hst : IsStack s.bufs s.head l) (hm : MarksOk s) :
    Matches s l ex (run procs (n + 1) fr (.tryCatch body handlers) s)
      (eval procs (n + 1) cur (.tryCatch body handlers) s.mem (decide (l ≠ []))) := by
  obtain ⟨t, l₀, hinit, hg, hne, hmem, hlen, hhead, hst₁, hsame₁, hm₁⟩ := enter_spec hst hm
  have hmatch := hn.block (some (t.bufs.length, none)) cur hbody hst₁ hm₁
    (List.cons_ne_nil _ _)
  have hmem₁ : (excPushBuf t).mem = s.mem := hmem
  rw [hmem₁] at hmatch
  rw [run, eval, hinit]
  generalize hr : run procs n (some (t.bufs.length, none)) body (excPushBuf t) = r at hmatch
  generalize hr' : eval procs n cur body s.mem true = r' at hmatch
  cases hmatch with
  | outOfFuel u m tried hm => exact .outOfFuel u m tried hm
  | normal u l' hg' hst' hsame' hm' =>
    obtain rfl := hg'.of_ne_nil (List.cons_ne_nil _ _)
    obtain ⟨w, hw, hmemw, hstw, hsamew, hmw⟩ := endtryNormal_spec hst' hhead hm'
    dsimp only
    rw [hw, ← hmemw, decide_eq_true (List.cons_ne_nil _ _), ← decide_eq_true hne]
    exact .normal w l₀ hg hstw ((hsame₁.trans hsame').trans_fresh hsamew hlen) hmw
  | exc u l' e hg' hsame' hm' hdel =>
    obtain rfl := hg'.of_ne_nil (List.cons_ne_nil _ _)
    obtain ⟨c, rest, rfl⟩ := List.exists_cons_of_ne_nil hne
    have hdel := hdel (by simp)
    simp only [deliver, if_true, decide_eq_true (List.cons_ne_nil _ _)]
    obtain ⟨w, buf, hw, hmemw, hstw, hsamew, hmw, hbuf, hfreed, hnot⟩ :=
      land_spec (k := fun cur s =>
        match cur.bind handlers.select with
        | some p => andThen (run procs n (some (t.bufs.length, cur)) p s) fun s =>
            endtryExc s t.bufs.length t.head cur true
        | none => endtryExc s t.bufs.length t.head cur false) hdel hhead hm'
    have hsame := (hsame₁.trans hsame').trans hsamew
    rw [hw, Option.bind_some, ← hmemw]
    rcases hsel : handlers.select e with _ | p
    · -- no clause matches
      have hpass := endtryExc_unhandled hstw hhead hmw hbuf hfreed hnot e
      rw [decide_eq_true (List.cons_ne_nil _ _)] at hpass
      exact hpass.after_fresh hg hsame hlen
    · have hmatch := hn p true (some (t.bufs.length, some e)) (some e) w (c :: rest)
        (hhandlers.of_select hsel) hstw hmw fun _ =>
          ⟨_, e, buf, rfl, rfl, hbuf, hfreed, hnot, List.cons_ne_nil _ _⟩
      rw [decide_eq_true (List.cons_ne_nil _ _)] at hmatch
      dsimp only
      generalize run procs n (some (t.bufs.length, some e)) p w = r at hmatch
      generalize eval procs n (some e) p w.mem true = r' at hmatch
      cases hmatch with
      | outOfFuel u m tried hm => exact .outOfFuel u m tried hm
      | normal x l' hg'' hstx hsamex hmx =>
        obtain rfl := hg''.of_ne_nil (List.cons_ne_nil _ _)
        obtain ⟨buf', hbuf', -, hfreed'⟩ := hsamex.buf _ buf hbuf (by simp)
        obtain ⟨y, hy, hmemy, hsty, hsamey, hmy⟩ := endtryExc_handled (some e) hstx hhead hmx
          hbuf' (hfreed'.trans hfreed) hnot
        change Matches s l ex (endtryExc x t.bufs.length t.head (some e) true) _
        rw [hy, ← hmemy]
        exact .normal y _ hg hsty ((hsame.trans hsamex).trans_fresh hsamey hlen) hmy
      | exc x l' e' hg'' hsamex hmx hdelx =>
        obtain rfl := hg''.of_ne_nil (List.cons_ne_nil _ _)
        rw [andThen_deliver]
        exact .exc x _ e' hg (hsame.trans_fresh hsamex hlen).weaken hmx hdelx

theorem correct_tryFinally (hn : Correct procs n) {body fin : Stmt σ} {fr : Frame}
    {cur : Option Exception} (hbody : body.Legal false) (hfin : fin.Legal false)
    (hst : IsStack s.bufs s.head l) (hm : MarksOk s) :
    Matches s l ex (run procs (n + 1) fr (.tryFinally body fin) s)
      (eval procs (n + 1) cur (.tryFinally body fin) s.mem (decide (l ≠ []))) := by
  obtain ⟨t, l₀, hinit, hg, hne, hmem, hlen, hhead, hst₁, hsame₁, hm₁⟩ := enter_spec hst hm
  obtain ⟨c, rest, rfl⟩ := List.exists_cons_of_ne_nil hne
  have hmatch := hn.block (some (t.bufs.length, none)) cur hbody hst₁ hm₁
    (List.cons_ne_nil _ _)
  have hmem₁ : (excPushBuf t).mem = s.mem := hmem
  rw [hmem₁] at hmatch
  rw [run, eval, hinit]
  generalize hr : run procs n (some (t.bufs.length, none)) body (excPushBuf t) = r at hmatch
  generalize hr' : eval procs n cur body s.mem true = r' at hmatch
  cases hmatch with
  | outOfFuel u m tried hm => exact .outOfFuel u m tried hm
  | normal u l' hg' hst' hsame' hm' =>
    -- the block runs while the buffer is in force
    obtain rfl := hg'.of_ne_nil (List.cons_ne_nil _ _)
    have hmatch := hn.block (some (t.bufs.length, none)) cur hfin hst' hm'
      (List.cons_ne_nil _ _)
    have hsame := hsame₁.trans hsame'
    dsimp only
    rw [decide_eq_true (List.cons_ne_nil _ _)]
    generalize run procs n (some (t.bufs.length, none)) fin u = r at hmatch
    generalize eval procs n cur fin u.mem true = r' at hmatch
    cases hmatch with
    | outOfFuel u m tried hm => exact .outOfFuel u m tried hm
    | normal w l' hg'' hstw hsamew hmw =>
      obtain rfl := hg''.of_ne_nil (List.cons_ne_nil _ _)
      obtain ⟨x, hx, hmemx, hstx, hsamex, hmx⟩ := endtryNormal_spec hstw hhead hmw
      change Matches s l ex (endtryNormal w t.bufs.length t.head) _
      rw [hx, ← hmemx, decide_eq_true (List.cons_ne_nil _ _),
        ← decide_eq_true (List.cons_ne_nil c rest)]
      exact .normal x _ hg hstx ((hsame.trans hsamew).trans_fresh hsamex hlen) hmx
    | exc w l' e hg'' hsamew hmw hdel =>
      obtain rfl := hg''.of_ne_nil (List.cons_ne_nil _ _)
      obtain ⟨x, buf, hx, hmemx, hstx, hsamex, hmx, -⟩ :=
        land_spec (k := fun cur s => excReraise s cur) (hdel (by simp)) hhead hmw
      simp only [deliver, inFinally, if_true, decide_eq_true (List.cons_ne_nil _ _)]
      rw [hx, ← hmemx, ← decide_eq_true (List.cons_ne_nil c rest)]
      exact ((matches_raise hstx hmx e).after hg ((hsame.trans hsamew).trans hsamex)).weaken
  | exc u l' e hg' hsame' hm' hdel =>
    obtain rfl := hg'.of_ne_nil (List.cons_ne_nil _ _)
    simp only [deliver, if_true, decide_eq_true (List.cons_ne_nil _ _)]
    obtain ⟨w, buf, hw, hmemw, hstw, hsamew, hmw, hbuf, hfreed, hnot⟩ :=
      land_spec (k := fun cur s => inFinally t.bufs.length t.head
        (run procs n (some (t.bufs.length, cur)) fin s) fun s =>
          endtryExc s t.bufs.length t.head cur false) (hdel (by simp)) hhead hm'
    have hsame := (hsame₁.trans hsame').trans hsamew
    have hmatch := hn.block (some (t.bufs.length, some e)) cur hfin hstw hmw
      (List.cons_ne_nil _ _)
    rw [hw, ← hmemw]
    generalize run procs n (some (t.bufs.length, some e)) fin w = r at hmatch
    generalize eval procs n cur fin w.mem true = r' at hmatch
    cases hmatch with
    | outOfFuel u m tried hm => exact .outOfFuel u m tried hm
    | normal x l' hg'' hstx hsamex hmx =>
      obtain rfl := hg''.of_ne_nil (List.cons_ne_nil _ _)
      obtain ⟨buf', hbuf', -, hfreed'⟩ := hsamex.buf _ buf hbuf (by simp)
      exact (endtryExc_unhandled hstx hhead hmx hbuf' (hfreed'.trans hfreed) hnot e).after_fresh hg
        (hsame.trans hsamex) hlen
    | exc x l' e' hg'' hsamex hmx hdelx =>
      obtain rfl := hg''.of_ne_nil (List.cons_ne_nil _ _)
      have hc : c ≠ t.bufs.length := fun heq => hnot (heq ▸ List.mem_cons_self)
      rw [inFinally_deliver hc]
      exact .exc x _ e' hg (hsame.trans hsamex).weaken hmx hdelx

/-- The macros do what a program means, and leave the stack of buffers as it was. -/
theorem run_matches (hprocs : ∀ i, (procs i).Legal false) (n : ℕ) : Correct procs n := by
  induction n with
  | zero =>
    intro p inHandler fr cur s l _ _ hm _
    rw [run, eval]
    exact .outOfFuel s _ _ hm
  | succ n ih =>
    intro p inHandler fr cur s l hlegal hst hm hin
    cases p with
    | step f =>
      rw [run, eval]
      exact .normal { s with mem := f s.mem } l (Grown.refl l) hst
        (same_append (List.append_nil _).symm) hm
    | seq p q =>
      obtain ⟨hp, hq⟩ : p.Legal inHandler ∧ q.Legal inHandler := by
        rwa [Stmt.Legal] at hlegal
      have hmatch := ih p inHandler fr cur s l hp hst hm hin
      rw [run, eval]
      generalize run procs n fr p s = r at hmatch
      generalize eval procs n cur p s.mem (decide (l ≠ [])) = r' at hmatch
      cases hmatch with
      | outOfFuel u m tried hm => exact .outOfFuel u m tried hm
      | normal t l' hg hst' hsame hm' =>
        refine (ih q inHandler fr cur t l' hq hst' hm' fun h => ?_).after hg hsame
        have hin' := hin h
        obtain ⟨-, -, -, -, -, -, -, -, hne⟩ := id hin'
        rw [hg.of_ne_nil hne]
        exact hin'.mono hsame
      | exc t l' e hg hsame hm' hdel =>
        rw [andThen_deliver]
        exact .exc t l' e hg hsame hm' hdel
    | ite c p q =>
      obtain ⟨hp, hq⟩ : p.Legal inHandler ∧ q.Legal inHandler := by
        rwa [Stmt.Legal] at hlegal
      rw [run, eval]
      by_cases hc : c s.mem = true
      · rw [if_pos hc, if_pos hc]
        exact ih p inHandler fr cur s l hp hst hm hin
      · rw [if_neg hc, if_neg hc]
        exact ih q inHandler fr cur s l hq hst hm hin
    | call proc =>
      rw [run, eval]
      exact (ih (procs proc) false none none s l (hprocs proc) hst hm fun h => nomatch h).weaken
    | raise exc =>
      rw [run, eval]
      exact (matches_raise hst hm exc).weaken
    | reraise =>
      obtain rfl : inHandler = true := by rwa [Stmt.Legal] at hlegal
      obtain ⟨eb, exc, buf, rfl, rfl, hbuf, hfreed, hnot, -⟩ := hin rfl
      rw [run, eval]
      exact matches_destroy_raise hst hm hbuf hfreed hnot exc
    | tryCatch body handlers =>
      obtain ⟨hbody, hhandlers⟩ : body.Legal false ∧ handlers.Legal := by
        rwa [Stmt.Legal] at hlegal
      exact correct_tryCatch ih hbody hhandlers hst hm
    | tryFinally body fin =>
      obtain ⟨hbody, hfin⟩ : body.Legal false ∧ fin.Legal false := by
        rwa [Stmt.Legal] at hlegal
      exact correct_tryFinally ih hbody hfin hst hm

/-! ### Threads -/

/-- A thread whose stack has at most its own buffer. -/
structure Fresh (s : Thread σ) : Prop where
  stack : IsStack s.bufs s.head [] ∨ ∃ b, IsStack s.bufs s.head [b]
  marks : s.marks = []

/-- A thread ends as its program means, and the program's data is the same; all `ENDTRY`s and all
handlers have the stack that their `TRY` found, and so has the thread's end. -/
theorem runThread_eq (procs : ℕ → Stmt σ) (hprocs : ∀ i, (procs i).Legal false) (p : Stmt σ)
    (hp : p.Legal false) (s : Thread σ) (hs : Fresh s) (n : ℕ) :
    let r := run procs n none p s
    let r' := eval procs n none p s.mem s.head.isSome
    r.1 = endOf r'.1 r'.2.2 ∧ (r'.1 ≠ .outOfFuel → r.2.mem = r'.2.1) ∧
      (∀ m ∈ r.2.marks, m.1 = m.2) ∧
      (r.1 = .normal → s.head.isSome = true → r.2.head = s.head) := by
  have hm : MarksOk s := by
    rw [MarksOk, hs.marks]
    exact fun m hmem => (List.not_mem_nil hmem).elim
  have hend : ∀ {l : List ℕ}, IsStack s.bufs s.head l → l.length ≤ 1 → (s.head.isSome = decide (l ≠ [])) →
      let r := run procs n none p s
      let r' := eval procs n none p s.mem s.head.isSome
      r.1 = endOf r'.1 r'.2.2 ∧ (r'.1 ≠ .outOfFuel → r.2.mem = r'.2.1) ∧
        (∀ m ∈ r.2.marks, m.1 = m.2) ∧
        (r.1 = .normal → s.head.isSome = true → r.2.head = s.head) := by
    intro l hst hlen hsome
    have hmatch := run_matches hprocs n p false none none s l hp hst hm fun h => nomatch h
    rw [hsome]
    dsimp only
    generalize run procs n none p s = r at hmatch
    generalize eval procs n none p s.mem (decide (l ≠ [])) = r' at hmatch
    cases hmatch with
    | outOfFuel t m tried hm => exact ⟨rfl, fun h => absurd rfl h, hm, fun h => nomatch h⟩
    | normal t l' hg hst' hsame hm' =>
      refine ⟨rfl, fun _ => rfl, hm', fun _ hne => ?_⟩
      have hl' := hg.of_ne_nil (of_decide_eq_true hne)
      rw [hst'.head_eq, hl', hst.head_eq]
    | exc t l' e hg hsame hm' hdel =>
      have hlen' : l'.length ≤ 1 := by
        rcases hg with rfl | ⟨-, b, rfl⟩
        · exact hlen
        · exact le_rfl
      refine ⟨?_, fun _ => rfl, hm', fun hnormal => ?_⟩
      · match l', hlen' with
        | [], _ => rfl
        | [b], _ => simp [deliver, endOf]
      · match l', hlen' with
        | [], _ => exact nomatch hnormal
        | [b], _ =>
          rw [deliver] at hnormal
          split at hnormal <;> exact nomatch hnormal
  rcases hs.stack with hst | ⟨b, hst⟩
  · refine hend hst (by decide) ?_
    rw [hst.head_eq]
    rfl
  · refine hend hst le_rfl ?_
    rw [hst.head_eq]
    rfl

/-- A handler that counts, for an exception of the body. -/
def countCaught : Stmt ℕ :=
  .tryCatch (.raise ⟨.status, 5⟩) (.clause ⟨.status, 5⟩ (.step fun n => n + 1) .endtry)

theorem runThread_eq_countCaught :
    (run (fun _ => .step id) 4 none countCaught { mem := 0 }).1 = .normal ∧
      (run (fun _ => .step id) 4 none countCaught { mem := 0 }).2.mem = 1 := by
  have h := runThread_eq (fun _ => .step id) (fun _ => by simp [Stmt.Legal]) countCaught
    (by simp [countCaught, Stmt.Legal, Handlers.Legal]) { mem := 0 } ⟨.inl rfl, rfl⟩ 4
  have heval : eval (fun _ => Stmt.step id) 4 none countCaught 0 false = (.normal, 1, true) := rfl
  dsimp only at h
  rw [show ({ mem := 0 } : Thread ℕ).head.isSome = false from rfl, heval] at h
  exact ⟨h.1, h.2.1 (by decide)⟩

/-- A handler raises the exception again inside a `TRY` of its own, which takes any exception. -/
def nestedReraise : Stmt ℕ :=
  .tryCatch (.raise ⟨.status, 5⟩)
    (.catchAll (.tryCatch .reraise (.catchAll (.step fun n => n + 1))))

/-- A cancel that is raised before the thread's first `TRY` ends the process, and so does the
`RERAISE` in the inner `TRY` of a handler. -/
theorem not_cancel_exitThread :
    (¬ ∀ (procs : ℕ → Stmt ℕ) (p : Stmt ℕ) (s : Thread ℕ) (n : ℕ), p.Legal false → Fresh s →
      (eval procs n none p s.mem s.head.isSome).1 = .exc pthreadCancelE →
        (run procs n none p s).1 = .exitThread) ∧
    (eval (fun _ => .step id) 5 none nestedReraise 0 false).1 = .normal ∧
      (run (fun _ => .step id) 5 none nestedReraise { mem := 0 }).1 = .exitProcess := by
  refine ⟨fun h => ?_, rfl, rfl⟩
  have hrun := h (fun _ => .step id) (.raise pthreadCancelE) { mem := 0 } 1
    (by simp [Stmt.Legal]) ⟨.inl rfl, rfl⟩ rfl
  exact absurd hrun (by decide)

end Exc
